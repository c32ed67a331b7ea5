import RecordGraph.Proofs.Filter.Integers
import RecordGraph.Proofs.Relational.Finding
import RecordGraph.Proofs.Text.Escaping

/-!
# Escaped texts as operands

An escaped text has none of the signs that cut a filter text or make a list, a moment or a comparison of an operand.
Where it starts with a letter or digit, is no truth word and is not written like a number, a clause asks for the
text itself. A number is asked for as the text that it is written as.
-/

namespace RecordGraph

open Binary64 (Short)

/-! ## Digits -/

/-- One or more digits of ASCII. -/
def Digits (cs : List Char) : Prop := cs ≠ [] ∧ ∀ ch ∈ cs, ch.isDigit = true

section Digits

variable {ch : Char} {cs rest : List Char} {ds : List Nat} {n : Nat}

theorem isDigit_iff : ch.isDigit = true ↔ 48 ≤ ch.toNat ∧ ch.toNat ≤ 57 := by
  simp only [Char.isDigit, Bool.and_eq_true, decide_eq_true_eq, ge_iff_le, UInt32.le_iff_toNat_le]
  exact Iff.rfl

theorem decimalValue?_of_isDigit (h : ch.isDigit = true) : decimalValue? ch = some (ch.toNat - 48) := by
  have hrange := isDigit_iff.mp h
  simp only [decimalValue?]
  rw [if_pos (by omega), if_pos hrange]

/-- The decimal digits of ASCII are its digits. -/
theorem isDigit_of_isDecimal (h : isDecimal ch = true) (hascii : ch.toNat < 128) : ch.isDigit = true := by
  refine isDigit_iff.mpr ?_
  by_contra hrange
  simp [isDecimal, decimalValue?, hascii, hrange] at h

theorem spanDigits_front (h : spanDigits cs = (ds, rest)) :
    ∃ front, cs = front ++ rest ∧ front.length = ds.length ∧ ∀ ch ∈ front, isDecimal ch = true := by
  induction cs generalizing ds with
  | nil =>
      cases h
      exact ⟨[], rfl, rfl, by simp⟩
  | cons ch cs ih =>
      rw [spanDigits] at h
      cases hch : decimalValue? ch with
      | none =>
          rw [hch] at h
          cases h
          exact ⟨[], rfl, rfl, by simp⟩
      | some d =>
          rw [hch] at h
          cases hspan : spanDigits cs with
          | mk digits after =>
              rw [hspan] at h
              cases h
              obtain ⟨front, rfl, hlength, hfront⟩ := ih hspan
              refine ⟨ch :: front, rfl, by simp [hlength], ?_⟩
              simpa [isDecimal, hch] using hfront

theorem spanDigits_digits (h : ∀ ch ∈ cs, ch.isDigit = true) :
    spanDigits cs = (cs.map fun ch => ch.toNat - 48, []) := by
  induction cs with
  | nil => rfl
  | cons ch cs ih =>
      rw [spanDigits, decimalValue?_of_isDigit (h ch List.mem_cons_self)]
      simp [ih fun ch hch => h ch (List.mem_cons_of_mem _ hch)]

theorem digits_toDigits : Digits (Nat.toDigits 10 n) := by
  refine ⟨Nat.toDigits_ne_nil, fun ch hch => ?_⟩
  exact Nat.isDigit_of_mem_toDigits (by decide) (by decide) hch

theorem digitsValue_toDigits : digitsValue ((Nat.toDigits 10 n).map fun ch => ch.toNat - 48) = n := by
  rw [digitsValue, List.foldl_map]
  exact Nat.ofDigitChars_ten_toDigits

/-- A natural number is written by its decimal digits. -/
theorem writes_toDigits : Operand.Writes (Nat.toDigits 10 n) n := by
  have hdigits : Digits (Nat.toDigits 10 n) := digits_toDigits
  have hspan := spanDigits_digits hdigits.2
  have hvalue := digitsValue_toDigits (n := n)
  cases hd : (Nat.toDigits 10 n).map fun ch => ch.toNat - 48 with
  | nil => exact absurd (List.map_eq_nil_iff.mp hd) hdigits.1
  | cons d ds =>
      rw [hd] at hspan hvalue
      have hwrites := Operand.Writes.digits hspan
      rwa [hvalue] at hwrites

end Digits

namespace Operand

variable {cs rest text : List Char} {word : String} {n : Nat}

/-- A text that is written like a natural number: digits, with an exponent or without one. -/
inductive Figures : List Char → Prop
  | whole {ds : List Char} (h : Digits ds) : Figures ds
  | scaled {ds es : List Char} {mark : Char} (h : Digits ds) (hmark : mark = 'e' ∨ mark = 'E') (hes : Digits es) :
    Figures (ds ++ mark :: es)

theorem Figures.alphanum (h : Figures cs) : ∀ ch ∈ cs, ch.isAlphanum = true := by
  have hdigits {ds : List Char} (h : Digits ds) : ∀ ch ∈ ds, ch.isAlphanum = true := by
    intro ch hch
    simp [Char.isAlphanum, h.2 ch hch]
  cases h with
  | whole h => exact hdigits h
  | scaled h hmark hes =>
      intro ch hch
      rcases List.mem_append.mp hch with hch | hch
      · exact hdigits h ch hch
      · rcases List.mem_cons.mp hch with rfl | hch
        · rcases hmark with rfl | rfl <;> rfl
        · exact hdigits hes ch hch

/-! ## Escaped texts that are no numbers -/

/-- A text of letters, digits and per cent signs, as an escaped one is. -/
def Escaped (text : List Char) : Prop := ∀ ch ∈ text, ch = '%' ∨ ch.isAlphanum = true

theorem Escaped.ascii (h : Escaped text) : ∀ ch ∈ text, ch.toNat < 128 := by
  intro ch hch
  rcases h ch hch with rfl | halphanum
  · decide
  · have hrange := isAlphanum_iff.mp halphanum
    omega

theorem Escaped.not_mem (h : Escaped text) (sign : Char) (hsign : sign ≠ '%' ∧ sign.isAlphanum = false) : sign ∉ text := by
  intro hin
  rcases h sign hin with rfl | halphanum
  · exact hsign.1 rfl
  · rw [hsign.2] at halphanum
    cases halphanum

theorem Escaped.tight (h : Escaped text) : ∀ ch ∈ text, isTight ch = true := by
  intro ch hch
  have hsigns : ch ≠ ',' ∧ ch ≠ '[' ∧ ch ≠ ']' := by
    refine ⟨?_, ?_, ?_⟩ <;> rintro rfl <;> exact h.not_mem _ ⟨by decide, rfl⟩ hch
  have hblank : isBlank ch = false := by
    rcases h ch hch with rfl | halphanum
    · rfl
    · have hrange := isAlphanum_iff.mp halphanum
      simp [isBlank]
      omega
  simp [isTight, hblank, hsigns]

theorem Escaped.of_append (h : Escaped (cs ++ rest)) : Escaped rest := fun ch hch => h ch (List.mem_append_right _ hch)

theorem escaped_escape : Escaped (escape cs) := fun _ => mem_escape

theorem Escaped.spanSign (h : Escaped text) : spanSign text = (false, text) := by
  unfold RecordGraph.spanSign
  split
  · exact absurd List.mem_cons_self (h.not_mem _ ⟨by decide, rfl⟩)
  · exact absurd List.mem_cons_self (h.not_mem _ ⟨by decide, rfl⟩)
  · rfl

/-- Decimal digits at the start of an escaped text are digits of ASCII. -/
theorem Escaped.spanDigits (h : Escaped text) {d : Nat} {ds : List Nat} (hspan : spanDigits text = (d :: ds, rest)) :
    ∃ front, text = front ++ rest ∧ Digits front := by
  obtain ⟨front, rfl, hlength, hfront⟩ := spanDigits_front hspan
  refine ⟨front, rfl, ?_, fun ch hch => ?_⟩
  · rintro rfl
    cases hlength
  · exact isDigit_of_isDecimal (hfront ch hch) (h.ascii ch (List.mem_append_left _ hch))

/-- There are no blanks in an escaped text. -/
theorem Escaped.eq_nil (h : Escaped text) (hblank : text.all isBlank = true) : text = [] := by
  cases text with
  | nil => rfl
  | cons ch text =>
      have hch := h.tight ch List.mem_cons_self
      simp_all [isTight]

theorem Escaped.spanExponent (h : Escaped text) (hblank : (spanExponent text).2.all isBlank = true) :
    text = [] ∨ ∃ mark es, text = mark :: es ∧ (mark = 'e' ∨ mark = 'E') ∧ Digits es := by
  unfold RecordGraph.spanExponent at hblank
  split at hblank
  · rename_i mark es
    split at hblank
    · rename_i hmark
      have hes : Escaped es := fun ch hch => h ch (List.mem_cons_of_mem _ hch)
      rw [hes.spanSign] at hblank
      dsimp only at hblank
      split at hblank
      · exact .inl (h.eq_nil hblank)
      · rename_i digits after hne hspan
        cases digits with
        | nil => exact absurd rfl hne
        | cons d ds =>
            obtain ⟨front, rfl, hfront⟩ := hes.spanDigits hspan
            have hafter : Escaped after := hes.of_append
            obtain rfl := hafter.eq_nil hblank
            rw [List.append_nil]
            exact .inr ⟨mark, front, rfl, hmark, hfront⟩
    · exact .inl (h.eq_nil hblank)
  · exact .inl rfl

theorem Escaped.spanNumeral (h : Escaped text) {numeral : Numeral} (hspan : spanNumeral text = some (numeral, rest)) :
    ∃ front after, text = front ++ after ∧ Digits front ∧ (RecordGraph.spanExponent after).2 = rest := by
  cases hdigits : RecordGraph.spanDigits text with
  | mk ds after =>
      have hpoint : ∀ more, after ≠ '.' :: more := by
        rintro more rfl
        obtain ⟨front, hfront, _⟩ := spanDigits_front hdigits
        exact h.not_mem '.' ⟨by decide, rfl⟩ (by simp [hfront])
      simp only [RecordGraph.spanNumeral, hdigits] at hspan
      cases ds with
      | nil => cases hspan
      | cons d ds =>
          obtain ⟨front, rfl, hfront⟩ := h.spanDigits hdigits
          exact ⟨front, after, rfl, hfront, congrArg Prod.snd (Option.some.inj hspan)⟩

/-- An escaped text that is a number is written like a natural number. -/
theorem Escaped.figures (h : Escaped text) (hnumber : isNumber text = true) : Figures text := by
  have htrim : trimStart text = text := by
    cases text with
    | nil => rfl
    | cons ch text =>
        have hch := h.tight ch List.mem_cons_self
        exact List.dropWhile_cons_of_neg (by simp_all [isTight])
  simp only [isNumber, numberPrefix?, htrim, h.spanSign] at hnumber
  cases hspan : RecordGraph.spanNumeral text with
  | none =>
      rw [hspan] at hnumber
      cases hnumber
  | some found =>
      obtain ⟨numeral, rest⟩ := found
      rw [hspan] at hnumber
      obtain ⟨front, after, rfl, hfront, hrest⟩ := h.spanNumeral hspan
      have hafter : Escaped after := h.of_append
      rcases hafter.spanExponent (hrest ▸ hnumber) with rfl | ⟨mark, es, rfl, hmark, hes⟩
      · rw [List.append_nil]
        exact .whole hfront
      · exact .scaled hfront hmark hes

/-- Escapes make no number of a text that is not written like one. -/
theorem isNumber_escape (h : ¬ Figures cs) : isNumber (escape cs) = false := by
  rw [Bool.eq_false_iff]
  intro hnumber
  have hfigures : Figures (escape cs) := escaped_escape.figures hnumber
  exact h (escape_inj (escape_alphanum hfigures.alphanum) ▸ hfigures)

theorem after?_of_colon (h : Escaped text) (hword : ':' ∈ word.toList) : after? word text = none := by
  cases hafter : after? word text with
  | none => rfl
  | some rest =>
      refine absurd ?_ (h.not_mem ':' ⟨by decide, rfl⟩)
      rw [dropStart?_eq_some hafter]
      exact List.mem_append_left _ hword

theorem splitWord?_of_colon {α : Type} {words : List (String × α)} (h : Escaped text)
    (hwords : ∀ w ∈ words, ':' ∈ w.1.toList) : splitWord? words text = none := by
  rw [splitWord?, List.findSome?_eq_none_iff]
  intro w hw
  simp [after?_of_colon h (hwords w hw)]

theorem compared_escape (h : ¬ Figures cs) : compared (escape cs) = .ok (RecordGraph.Operand.text (escape cs)) := by
  have hmoments : splitWord? momentWords (escape cs) = none := splitWord?_of_colon escaped_escape (by decide)
  have hnumbers : splitWord? numberWords (escape cs) = none := splitWord?_of_colon escaped_escape (by decide)
  simp only [compared, datetime?, numeric?, looksLikeNumber, hmoments, hnumbers, isNumber_escape h]
  rfl

/-- An escaped text that starts with a letter or digit is no wildcard. -/
theorem text_escape {ch : Char} (hch : ch.isAlphanum = true)
    (hword : ch :: cs ≠ "true".toList ∧ ch :: cs ≠ "false".toList) :
    RecordGraph.Operand.text (escape (ch :: cs)) = .object [("equals", .text (.ofList (ch :: cs)))] := by
  have hopened : startsWith ['%'] (escape (ch :: cs)) = false := by
    have hne : '%' ≠ ch := by
      rintro rfl
      cases hch
    simp [escape, escapeChar, hch, startsWith, dropStart?, hne]
  have hclosed : endsWith ['%'] (escape (ch :: cs)) = false := by
    obtain ⟨front, last, hlast, halphanum⟩ := escape_last (List.cons_ne_nil ch cs)
    have hne : '%' ≠ last := by
      rintro rfl
      cases halphanum
    simp [endsWith, hlast, startsWith, dropStart?, hne]
  have hother {word : String} (hescape : escape word.toList = word.toList) (hne : ch :: cs ≠ word.toList) :
      escape (ch :: cs) ≠ word.toList := by
    intro heq
    exact hne (escape_inj (heq.trans hescape.symm))
  unfold RecordGraph.Operand.text
  rw [if_neg (hother rfl hword.1), if_neg (hother rfl hword.2)]
  simp [hopened, hclosed, percentDecode_escape]

/-- A text that its escapes protect: it starts with a letter or digit of ASCII and is no truth word. Where it is
written like a number, it is the way to write a natural number of at most 53 bits, trailing zeros aside, and not one
that is too large for a double. -/
structure Literal (cs : List Char) : Prop where
  opened : ∃ ch rest, cs = ch :: rest ∧ ch.isAlphanum = true
  unspoken : cs ≠ "true".toList ∧ cs ≠ "false".toList
  figures : Figures cs → ∃ n : Nat, Short n ∧ n.log2 < 1023 ∧ cs = Nat.toDigits 10 n

/-- An escaped literal is compared with as the text, or as the number that the text writes. -/
theorem Literal.compared (h : Literal cs) :
    compared (escape cs) = .ok (.object [("equals", .text (.ofList cs))]) ∨
      ∃ n : Nat, cs = Nat.toDigits 10 n ∧ compared (escape cs) = .ok (.object [("equals", .int n)]) := by
  by_cases hfigures : Figures cs
  · obtain ⟨n, hshort, hsize, rfl⟩ := h.figures hfigures
    have hasks : Asks ("".toList ++ Nat.toDigits 10 n) [(.equal, (n : Int))] :=
      .word List.mem_cons_self writes_toDigits
    obtain ⟨told, hrounded, hcompared⟩ := compared_asks hasks (by simpa using hsize)
    obtain rfl := hrounded.eq_of_short (by simpa using hshort)
    refine .inr ⟨n, rfl, ?_⟩
    rw [escape_alphanum hfigures.alphanum]
    exact hcompared
  · obtain ⟨ch, rest, rfl, hch⟩ := h.opened
    rw [compared_escape hfigures, text_escape hch h.unspoken]
    exact .inl rfl

theorem not_figures_of_mem (ch : Char) (hin : ch ∈ cs) (hch : ch.isAlphanum = false) : ¬ Figures cs := by
  intro h
  rw [h.alphanum ch hin] at hch
  cases hch

end Operand

/-! ## Columns of texts -/

namespace Cell

theorem same_text_iff {cell : Cell} {s : String} : cell.same (.text s) = true ↔ cell = .text s := by
  rw [same_iff]
  cases cell with
  | null | integer | text => simp [isNull, rank]
  | real x =>
      simp only [isNull, rank, reduceCtorEq, iff_false, true_and]
      split <;> simp

end Cell

namespace Column

variable {column : Column} {v : Value} {s : String}

/-- A column of texts takes an integer as the text that it is written as. -/
theorem coerce_shown (hk : column.kind = .text) {n : Int} : column.coerce (.int n) = .ok (.text (Value.int n).shown) := by
  rw [coerce, hk]
  rfl

/-- A column of texts that is to equal a text has that text. -/
theorem equals_selects (hk : column.kind = .text) (hnull : v.isNull = false) (hplain : v.isObject = false)
    (hcoerce : column.coerce v = .ok (.text s)) :
    ∃ cond, column.condition (.object [("equals", v)]) = .ok cond ∧ (Condition.all [cond]).bind = .ok () ∧
      ∀ db row, (Condition.all [cond]).selects db row = true ↔ row.get column.name = .text s := by
  have hequal := equalTo_compares hnull hcoerce rfl
  rw [soughtAs_text hk] at hequal
  refine ⟨_, condition_single.mpr ⟨_, (operation_plain hplain).trans hequal, rfl⟩, Condition.bind_ok ?_, ?_⟩
  · intro o ho
    obtain ⟨_, hin, ho⟩ := Condition.mem_operands_all ho
    obtain rfl := List.mem_singleton.mp hin
    obtain ⟨_, hin, ho⟩ := Condition.mem_operands_all ho
    obtain rfl := List.mem_singleton.mp hin
    exact ⟨_, List.mem_singleton.mp ho⟩
  · intro db row
    rw [Condition.selects_iff, Condition.eval_all_single, Condition.eval_all_single, ← Condition.selects_iff,
      Condition.selects_equal_iff]
    exact Cell.same_text_iff

end Column

namespace Catalog

/-- A column is among the fields of its entity. -/
theorem field_of_column (c : Catalog) {m : Model} (entity : String) {name : String} {column : Column}
    (h : m.column? name = some column) : ∃ field, (c.entity entity m).field? name = some field := by
  unfold Entity.field? Catalog.entity
  dsimp only
  rw [List.find?_append, List.find?_map]
  change ∃ field, (Option.map _ (m.column? name)).or _ = some field
  rw [h]
  exact ⟨_, rfl⟩

end Catalog

namespace Filter

variable {c : Catalog} {m : Model} {entity name : String} {column : Column} {cs : List Char}

theorem deniable_escape (h : Operand.Literal cs) : Deniable (escape cs) where
  filled := by
    obtain ⟨ch, rest, rfl, hch⟩ := h.opened
    simp [escape, escapeChar, hch]
  trimmed := Operand.trim_of_tight Operand.escaped_escape.tight
  present := by
    have hescaped : Operand.Escaped (escape cs) := Operand.escaped_escape
    intro hnull
    exact hescaped.not_mem '#' ⟨by decide, rfl⟩ (by simp [hnull, nullWord])
  asserted := Operand.after?_of_colon Operand.escaped_escape (by decide)
  single := single_of_tight Operand.escaped_escape.tight

/-- A clause with an escaped literal selects the rows that have the text in the column. -/
theorem escaped_operands_exact (h : c.WellFormed) (hm : c.model? entity = some m) (hcolumn : m.column? name = some column)
    (hk : column.kind = .text) (hname : Addressable name) (hliteral : Operand.Literal cs) :
    ∃ tree cond, parse c.schema entity (clauseText name (escape cs)) = .ok tree ∧
      c.condition m (.object tree) = .ok cond ∧ cond.bind = .ok () ∧
      ∀ db row, cond.selects db row = true ↔ row.get name = .text (.ofList cs) := by
  obtain ⟨field, hf⟩ := c.field_of_column entity hcolumn
  have hcalled : column.name = name := by simpa using List.find?_some hcolumn
  have hl : m.link? name = none := by
    rw [← hcalled]
    exact h.apart _ (Catalog.mem_of_model? hm) column (List.mem_of_find?_eq_some hcolumn)
  have hunlisted : Operand.isBracketed (escape cs) = false := Operand.unlisted_of_tight Operand.escaped_escape.tight
  have hread : ∃ v, Operand.compared (escape cs) = .ok (.object [("equals", v)]) ∧ v.isNull = false ∧
      v.isObject = false ∧ column.coerce v = .ok (.text (.ofList cs)) := by
    rcases hliteral.compared with hcompared | ⟨n, rfl, hcompared⟩
    · exact ⟨_, hcompared, rfl, rfl, Column.coerce_text hk⟩
    · exact ⟨_, hcompared, rfl, rfl, Column.coerce_shown hk⟩
  obtain ⟨v, hcompared, hnull, hplain, hcoerce⟩ := hread
  obtain ⟨cond, hcond, hbind, hselects⟩ := Column.equals_selects hk hnull hplain hcoerce
  refine ⟨[(name, .object [("equals", v)])], .all [cond], ?_, ?_, hbind, ?_⟩
  · rw [parse_clauseText (c.schema_entity hm) hf hname (deniable_escape hliteral), applyOperand_compared hunlisted,
      hcompared]
    rfl
  · exact (Catalog.condition_column hname.unreserved hl hcolumn).mpr ⟨_, hcond, rfl⟩
  · rw [← hcalled]
    exact hselects

/-! Users of a blog, looked for by their name. -/

theorem addressable_name : Addressable "name" where
  uncut := by simp
  trimmed := rfl
  unreserved := by decide

def blogUser : Model := (Catalog.blogCatalog.model? "User").getD default

/-- A name with a sign of lists, a space and a letter beyond ASCII. -/
theorem oddName_selected :
    Catalog.blogCatalog.model? "User" = some blogUser ∧
    blogUser.column? "name" = some { name := "name", kind := .text } ∧ Addressable "name" ∧
    Operand.Literal "Ann, é [2]".toList ∧ escape "Ann, é [2]".toList = "Ann%2C%20%C3%A9%20%5B2%5D".toList ∧
    ∃ tree cond, parse Catalog.blogCatalog.schema "User" (clauseText "name" (escape "Ann, é [2]".toList)) = .ok tree ∧
      Catalog.blogCatalog.condition blogUser (.object tree) = .ok cond ∧ cond.bind = .ok () ∧
      cond.selects Catalog.blogDatabase [("name", .text "Ann, é [2]")] = true ∧
      cond.selects Catalog.blogDatabase [("name", .text "Ann")] = false := by
  have hliteral : Operand.Literal "Ann, é [2]".toList := {
    opened := ⟨_, _, rfl, rfl⟩
    unspoken := by decide
    figures := fun h => absurd h (Operand.not_figures_of_mem ',' (by decide) rfl) }
  have hmodel : Catalog.blogCatalog.model? "User" = some blogUser := rfl
  have hcolumn : blogUser.column? "name" = some { name := "name", kind := .text } := rfl
  obtain ⟨tree, cond, htree, hcond, hbind, hselects⟩ :=
    escaped_operands_exact Catalog.blogCatalog_wellFormed hmodel hcolumn rfl addressable_name hliteral
  refine ⟨hmodel, hcolumn, addressable_name, hliteral, by decide, tree, cond, htree, hcond, hbind, ?_, ?_⟩
  · exact (hselects _ _).mpr rfl
  · rw [Bool.eq_false_iff, ne_eq, hselects]
    decide

/-- A truth word asks for the number of the truth value, a number for the way it is written, and an escape at the
start is cut in two. -/
theorem literals_mistaken :
    (∃ cond, parse Catalog.blogCatalog.schema "User" (clauseText "name" (escape "true".toList)) =
        .ok [("name", .bool true)] ∧
      Catalog.blogCatalog.condition blogUser (.object [("name", .bool true)]) = .ok cond ∧
      cond.selects Catalog.blogDatabase [("name", .text "true")] = false ∧
      cond.selects Catalog.blogDatabase [("name", .text "1")] = true) ∧
    (∃ cond, parse Catalog.blogCatalog.schema "User" (clauseText "name" (escape "007".toList)) =
        .ok [("name", .object [("equals", .int 7)])] ∧
      Catalog.blogCatalog.condition blogUser (.object [("name", .object [("equals", .int 7)])]) = .ok cond ∧
      cond.selects Catalog.blogDatabase [("name", .text "007")] = false ∧
      cond.selects Catalog.blogDatabase [("name", .text "7")] = true) ∧
    ∃ cond, parse Catalog.blogCatalog.schema "User" (clauseText "name" (escape "#1".toList)) =
        .ok [("name", .object [("endsWith", .text "231")])] ∧
      Catalog.blogCatalog.condition blogUser (.object [("name", .object [("endsWith", .text "231")])]) = .ok cond ∧
      cond.selects Catalog.blogDatabase [("name", .text "#1")] = false ∧
      cond.selects Catalog.blogDatabase [("name", .text "1231")] = true := by
  refine ⟨⟨_, rfl, rfl, rfl, rfl⟩, ⟨_, rfl, rfl, rfl, rfl⟩, _, rfl, rfl, rfl, rfl⟩

end Filter

end RecordGraph
