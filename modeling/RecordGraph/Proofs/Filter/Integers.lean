import RecordGraph.Proofs.Filter.Complement
import RecordGraph.Proofs.Number.Rounding
import RecordGraph.Proofs.Relational.Lookup

/-!
# Integers that are asked for

A clause compares a field with an integer in decimal digits, or with two. On its way into the condition an integer
becomes a double and an integer again, so the clause compares with the nearest integer that a double has the bits
for. With an integer of at most 53 bits, trailing zeros aside, that is the one that was written.
-/

namespace RecordGraph

open Binary64 (Rounded Short signed)

namespace Comparison

variable {comparison : Comparison} {m n : Int}

/-- The operator of a filter tree that compares so. -/
def operator : Comparison → String
  | .equal => "equals"
  | .unequal => "not"
  | .less => "lt"
  | .atMost => "lte"
  | .greater => "gt"
  | .atLeast => "gte"

/-- What may stand before an operand to compare so. -/
def words : Comparison → List String
  | .equal => ["", "eq:"]
  | .unequal => ["ne:"]
  | .less => ["lt:"]
  | .atMost => ["lte:"]
  | .greater => ["gt:"]
  | .atLeast => ["gte:"]

/-- How an integer is related to the one that it is compared with. -/
def Relates : Comparison → Int → Int → Prop
  | .equal, m, n => m = n
  | .unequal, m, n => m ≠ n
  | .less, m, n => m < n
  | .atMost, m, n => m ≤ n
  | .greater, m, n => n < m
  | .atLeast, m, n => n ≤ m

theorem admits_iff : comparison.admits (compare m n) = true ↔ comparison.Relates m n := by
  rcases lt_trichotomy m n with h | rfl | h
  · cases comparison <;> simp [admits, Relates, compare_lt_iff_lt.mpr h] <;> omega
  · cases comparison <;> simp [admits, Relates]
  · cases comparison <;> simp [admits, Relates, compare_gt_iff_gt.mpr h] <;> omega

end Comparison

namespace Operand

/-! ## Integers in decimal digits -/

/-- A text that writes an integer in decimal digits. -/
inductive Writes : List Char → Int → Prop
  | digits {cs : List Char} {d : Nat} {ds : List Nat} (h : spanDigits cs = (d :: ds, [])) :
    Writes cs (digitsValue (d :: ds))
  | negative {cs : List Char} {d : Nat} {ds : List Nat} (h : spanDigits cs = (d :: ds, [])) :
    Writes ('-' :: cs) (-(digitsValue (d :: ds)))

variable {cs start stop : List Char} {d : Nat} {ds : List Nat} {n k : Int} {x : Binary64} {word : String}
  {comparison : Comparison}

theorem isDecimal_of_mem (h : spanDigits cs = (ds, [])) : ∀ ch ∈ cs, isDecimal ch = true := by
  induction cs generalizing ds with
  | nil => simp
  | cons ch cs ih =>
      rw [spanDigits] at h
      cases hch : decimalValue? ch with
      | none =>
          rw [hch] at h
          cases h
      | some d =>
          rw [hch] at h
          obtain ⟨-, hrest⟩ := Prod.mk.inj h
          rintro other (_ | ⟨_, hin⟩)
          · simp [isDecimal, hch]
          · exact ih (Prod.ext rfl hrest) other hin

theorem Writes.chars (h : Writes cs n) : ∀ ch ∈ cs, ch = '-' ∨ isDecimal ch = true := by
  cases h with
  | digits h => exact fun ch hin => .inr (isDecimal_of_mem h ch hin)
  | negative h =>
      rintro ch (_ | ⟨_, hin⟩)
      · exact .inl rfl
      · exact .inr (isDecimal_of_mem h ch hin)

theorem spanNumeral_of_whole (h : spanDigits cs = (d :: ds, [])) :
    spanNumeral cs = some (⟨digitsValue (d :: ds), 0⟩, []) := by
  simp [spanNumeral, h, spanExponent]

theorem Writes.isPlain (h : Writes cs n) : isPlainNumber cs = true := by
  cases h with
  | @digits _ d ds h =>
      cases cs with
      | nil => cases h
      | cons ch cs =>
          have hminus : after? "-" (ch :: cs) = none :=
            if_neg (Ne.symm (ne_of_isDecimal (isDecimal_of_spanDigits h) (by decide)))
          simp only [isPlainNumber, hminus, Option.getD_none, afterDigits?, h]
          rfl
  | @negative cs d ds h =>
      have hminus : after? "-" ('-' :: cs) = some cs := rfl
      simp only [isPlainNumber, hminus, Option.getD_some, afterDigits?, h]
      rfl

/-- An integer in decimal digits is a number, which is a nearest integer. -/
theorem Writes.numberPrefix? (h : Writes cs n) (hsize : n.natAbs.log2 < 1023) :
    ∃ x k, Operand.numberPrefix? cs = some (x, []) ∧ ofNumber x = .int k ∧ Rounded n k := by
  cases h with
  | @digits _ d ds h =>
      rw [Int.natAbs_natCast] at hsize
      obtain ⟨k, hk, hrounded⟩ := Binary64.toInt?_ofDecimal false hsize
      refine ⟨.ofDecimal false (digitsValue (d :: ds)) 0, k, ?_, by rw [ofNumber, hk], hrounded⟩
      cases cs with
      | nil => cases h
      | cons ch cs =>
          simp only [Operand.numberPrefix?, spanSign_of_isDecimal (isDecimal_of_spanDigits h), spanNumeral_of_whole h]
          rfl
  | @negative cs d ds h =>
      rw [Int.natAbs_neg, Int.natAbs_natCast] at hsize
      obtain ⟨k, hk, hrounded⟩ := Binary64.toInt?_ofDecimal true hsize
      refine ⟨.ofDecimal true (digitsValue (d :: ds)) 0, k, ?_, by rw [ofNumber, hk], hrounded⟩
      have hsign : spanSign (trimStart ('-' :: cs)) = (true, cs) := rfl
      simp only [Operand.numberPrefix?, hsign, spanNumeral_of_whole h]
      rfl

/-! ## Words before them -/

/-- Whether a text starts neither with a digit nor with a minus. -/
def isLettered (word : String) : Bool :=
  match word.toList with
  | [] => false
  | ch :: _ => ch != '-' && !isDecimal ch

theorem after?_of_plain (h : isPlainNumber cs = true) (hword : isLettered word = true) : after? word cs = none := by
  obtain ⟨ch, rest, rfl, hch⟩ := head_of_plain h
  unfold isLettered at hword
  unfold after?
  split at hword
  · cases hword
  · next first more hfirst =>
    rw [hfirst]
    refine if_neg ?_
    rintro rfl
    rcases hch with rfl | ⟨hdecimal, _⟩
    · cases hword
    · simp [hdecimal] at hword

theorem splitWord?_of_plain {α : Type} {words : List (String × α)} (h : isPlainNumber cs = true)
    (hwords : ∀ w ∈ words, isLettered w.1 = true) : splitWord? words cs = none := by
  rw [splitWord?, List.findSome?_eq_none_iff]
  intro w hw
  simp [after?_of_plain h (hwords w hw)]

theorem startingNumber?_of_prefix (h : isPlainNumber cs = true) (hx : Operand.numberPrefix? cs = some (x, [])) :
    startingNumber? cs = .ok (some x) :=
  startingNumber?_of_plain h (by rw [leadingNumber?, hx]; rfl)

/-- An integer is compared with as its word says. -/
theorem compared_word (hword : word ∈ comparison.words) (h : isPlainNumber cs = true)
    (hx : Operand.numberPrefix? cs = some (x, [])) :
    compared (word.toList ++ cs) = .ok (.object [(comparison.operator, ofNumber x)]) := by
  have hstart := startingNumber?_of_prefix h hx
  have hnumber : isNumber cs = true := by
    simp [isNumber, hx]
  have hbare : compared cs = .ok (.object [("equals", ofNumber x)]) := by
    have hmoment : splitWord? momentWords cs = none := splitWord?_of_plain h (by decide)
    have hwords : splitWord? numberWords cs = none := splitWord?_of_plain h (by decide)
    simp only [compared, datetime?, numeric?, looksLikeNumber, number?, hmoment, hwords, hnumber, hstart]
    rfl
  have htold {op : String} (hmoment : splitWord? momentWords (word.toList ++ cs) = none)
      (hwords : splitWord? numberWords (word.toList ++ cs) = some (.compare op, cs)) :
      compared (word.toList ++ cs) = .ok (.object [(op, ofNumber x)]) := by
    simp only [compared, datetime?, numeric?, looksLikeNumber, number?, hmoment, hwords, hstart, Option.isSome_some,
      Bool.or_true, if_true]
    rfl
  cases comparison with
  | equal =>
      rcases List.mem_pair.mp hword with rfl | rfl
      · exact hbare
      · exact htold rfl rfl
  | unequal | less | atMost | greater | atLeast =>
      obtain rfl := List.mem_singleton.mp hword
      exact htold rfl rfl

/-- The ends of a range are compared with on their two sides. -/
theorem compared_range {low high : Binary64} (hstart : isPlainNumber start = true) (hstop : isPlainNumber stop = true)
    (hlow : Operand.numberPrefix? start = some (low, [])) (hhigh : Operand.numberPrefix? stop = some (high, []))
    (hrange : range (start ++ ';' :: stop) = .ok (start, stop)) :
    compared ("between:".toList ++ (start ++ ';' :: stop)) =
      .ok (.object [("gte", ofNumber low), ("lte", ofNumber high)]) := by
  have hends : ends? start stop = some (ofNumber low, ofNumber high) := by
    simp [ends?, hstart, hstop, leadingNumber?, hlow, hhigh]
  have hword : after? "between:" ("between:".toList ++ (start ++ ';' :: stop)) = some (start ++ ';' :: stop) := rfl
  rcases compared_between hword with
    ⟨failure, hfail, _⟩ | ⟨_, _, hok, ⟨low', high', hends', hcompared⟩ | ⟨hnone, _⟩⟩
  · rw [hrange] at hfail
    cases hfail
  · cases hrange.symm.trans hok
    cases hends.symm.trans hends'
    exact hcompared
  · cases hrange.symm.trans hok
    cases hends.symm.trans hnone

/-! ## What operands ask for -/

/-- A character that may stand in an operand without ending it or being cut off. -/
def isTight (ch : Char) : Bool := !isBlank ch && ch != ',' && ch != '[' && ch != ']'

theorem trim_of_tight (h : ∀ ch ∈ cs, isTight ch = true) : trim cs = cs := by
  have hkeep {text : List Char} (htext : ∀ ch ∈ text, isTight ch = true) : text.dropWhile isBlank = text := by
    cases text with
    | nil => rfl
    | cons ch text =>
        have hch := htext ch List.mem_cons_self
        exact List.dropWhile_cons_of_neg (by simp_all [isTight])
  rw [trim, trimStart, hkeep h, trimEnd, hkeep (by simpa using h), List.reverse_reverse]

theorem Writes.tight (h : Writes cs n) : ∀ ch ∈ cs, isTight ch = true := by
  intro ch hin
  rcases h.chars ch hin with rfl | hdecimal
  · rfl
  · simp [isTight, isBlank_of_isDecimal hdecimal, ne_of_isDecimal hdecimal (show isDecimal ',' = false by decide),
      ne_of_isDecimal hdecimal (show isDecimal '[' = false by decide),
      ne_of_isDecimal hdecimal (show isDecimal ']' = false by decide)]

/-- What an operand asks of an integer: how it is to compare with one or more others. -/
inductive Asks : List Char → List (Comparison × Int) → Prop
  | word {comparison : Comparison} {word : String} {cs : List Char} {n : Int} (hword : word ∈ comparison.words)
    (h : Writes cs n) : Asks (word.toList ++ cs) [(comparison, n)]
  | range {start stop : List Char} {low high : Int} (hlow : Writes start low) (hhigh : Writes stop high) :
    Asks ("between:".toList ++ (start ++ ';' :: stop)) [(.atLeast, low), (.atMost, high)]

variable {asked told : List (Comparison × Int)}

/-- The operators that a filter tree has for what is asked. -/
def operatorsOf (asked : List (Comparison × Int)) : Object :=
  asked.map fun (comparison, n) => (comparison.operator, .int n)

theorem range_ends (hstart : Writes start n) (hstop : Writes stop k) :
    range (start ++ ';' :: stop) = .ok (start, stop) := by
  have hfree {text : List Char} {n : Int} (h : Writes text n) : ';' ∉ text := by
    intro hin
    rcases h.chars _ hin with heq | hdecimal
    · cases heq
    · exact absurd hdecimal (by decide)
  have hfilled {text : List Char} {n : Int} (h : Writes text n) : text ≠ [] := by
    rintro rfl
    cases h.isPlain
  have hparts : parts (start ++ ';' :: stop) = [start, stop] := by
    rw [parts, splitAt_append (hfree hstart), splitAt_whole (hfree hstop)]
    simp [trim_of_tight hstart.tight, trim_of_tight hstop.tight]
  simp [range, hparts, hfilled hstart, hfilled hstop]
  rfl

/-- The same comparisons, each with a nearest integer that a double has the bits for. -/
def RoundedTo (asked told : List (Comparison × Int)) : Prop :=
  List.Forall₂ (fun q r => q.1 = r.1 ∧ Rounded q.2 r.2) asked told

/-- Integers of at most 53 bits stay as they are. -/
theorem RoundedTo.eq_of_short (h : RoundedTo asked told) (hshort : ∀ q ∈ asked, Short q.2) : told = asked := by
  induction h with
  | nil => rfl
  | cons hq _ ih =>
      obtain ⟨hcomparison, hinteger⟩ := hq
      rw [ih fun q hin => hshort q (List.mem_cons_of_mem _ hin)]
      rw [Prod.ext hcomparison.symm (hinteger.eq_of_short (hshort _ List.mem_cons_self))]

/-- An operand is read as the operators for what it asks, each integer rounded. -/
theorem compared_asks (h : Asks cs asked) (hsize : ∀ q ∈ asked, q.2.natAbs.log2 < 1023) :
    ∃ told, RoundedTo asked told ∧ compared cs = .ok (.object (operatorsOf told)) := by
  cases h with
  | word hword h =>
      obtain ⟨x, k, hx, hk, hrounded⟩ := h.numberPrefix? (hsize _ List.mem_cons_self)
      refine ⟨[(_, k)], .cons ⟨rfl, hrounded⟩ .nil, ?_⟩
      rw [compared_word hword h.isPlain hx, hk]
      rfl
  | range hlow hhigh =>
      obtain ⟨x, i, hx, hi, hleft⟩ := hlow.numberPrefix? (hsize _ List.mem_cons_self)
      obtain ⟨y, j, hy, hj, hright⟩ := hhigh.numberPrefix? (hsize _ (List.mem_cons_of_mem _ List.mem_cons_self))
      refine ⟨[(_, i), (_, j)], .cons ⟨rfl, hleft⟩ (.cons ⟨rfl, hright⟩ .nil), ?_⟩
      rw [compared_range hlow.isPlain hhigh.isPlain hx hy (range_ends hlow hhigh), hi, hj]
      rfl

theorem Asks.tight (h : Asks cs asked) : ∀ ch ∈ cs, isTight ch = true := by
  cases h with
  | @word comparison _ _ _ hword h =>
      have hletters : (comparison.words.all fun word => word.toList.all isTight) = true := by
        cases comparison <;> decide
      intro ch hin
      rcases List.mem_append.mp hin with hin | hin
      · exact List.all_eq_true.mp (List.all_eq_true.mp hletters _ hword) ch hin
      · exact h.tight ch hin
  | range hlow hhigh =>
      have hletters : "between:".toList.all isTight = true := by decide
      intro ch hin
      rcases List.mem_append.mp hin with hin | hin
      · exact List.all_eq_true.mp hletters ch hin
      · rcases List.mem_append.mp hin with hin | hin
        · exact hlow.tight ch hin
        · rcases List.mem_cons.mp hin with rfl | hin
          · rfl
          · exact hhigh.tight ch hin

/-- An operand that asks for an integer denies nothing and is not the word for null. -/
theorem Asks.after?_none (h : Asks cs asked) : after? "not:" cs = none ∧ after? "#NULL" cs = none := by
  cases h with
  | @word comparison _ _ _ hword h =>
      cases comparison with
      | equal =>
          rcases List.mem_pair.mp hword with rfl | rfl
          · exact ⟨after?_of_plain h.isPlain (by decide), after?_of_plain h.isPlain (by decide)⟩
          · exact ⟨rfl, rfl⟩
      | unequal | less | atMost | greater | atLeast =>
          obtain rfl := List.mem_singleton.mp hword
          exact ⟨rfl, rfl⟩
  | range => exact ⟨rfl, rfl⟩

theorem unlisted_of_tight (h : ∀ ch ∈ cs, isTight ch = true) : isBracketed cs = false := by
  cases cs with
  | nil => rfl
  | cons ch cs =>
      have hch := h ch List.mem_cons_self
      have hopen : '[' ≠ ch := by
        rintro rfl
        cases hch
      simp [isBracketed, startsWith, dropStart?, hopen]

theorem Asks.unlisted (h : Asks cs asked) : isBracketed cs = false := unlisted_of_tight h.tight

end Operand

namespace Filter

theorem single_of_tight {operand : List Char} (h : ∀ ch ∈ operand, Operand.isTight ch = true) : Single operand :=
  .inr ⟨fun hin => absurd (h _ hin) (by decide), fun hin => absurd (h _ hin) (by decide),
    fun hin => absurd (h _ hin) (by decide)⟩

theorem deniable_of_asks {operand : List Char} {asked : List (Comparison × Int)} (h : Operand.Asks operand asked) :
    Deniable operand where
  filled := by
    cases h with
    | word _ h =>
        intro hnil
        obtain ⟨_, rfl⟩ := List.append_eq_nil_iff.mp hnil
        cases h.isPlain
    | range =>
        intro hnil
        cases hnil
  trimmed := Operand.trim_of_tight h.tight
  present := by
    rintro rfl
    cases h.after?_none.2
  asserted := h.after?_none.1
  single := single_of_tight h.tight

end Filter

/-! ## Conditions on integers -/

namespace Column

variable {column : Column} {comparison : Comparison} {n : Int} {asked : List (Comparison × Int)}

theorem operand_int (hk : column.kind = .integer) (hn : Fits n) : column.operand (.int n) = .ok (.integer n) :=
  soughtAs_int hk hn

theorem operation_int (hk : column.kind = .integer) (hn : Fits n) :
    column.operation comparison.operator (.int n) = .ok (.compare comparison column.name (.ok (.integer n))) := by
  have hcoerce : column.coerce (.int n) = .ok (.int n) := coerce_int hk
  rw [operation_plain rfl, ← operand_int hk hn]
  cases comparison <;> simp only [Comparison.operator, operator, equalTo, unequalTo, ordered, hcoerce] <;> rfl

/-- The condition of integers that are related to others as is asked. -/
def asking (column : Column) (asked : List (Comparison × Int)) : Condition :=
  .all (asked.map fun q => .compare q.1 column.name (.ok (.integer q.2)))

theorem condition_asking (hk : column.kind = .integer) (hfits : ∀ q ∈ asked, Fits q.2) :
    column.condition (.object (Operand.operatorsOf asked)) = .ok (column.asking asked) := by
  refine map_ok_iff.mpr ⟨_, operators_ok_iff.mpr ?_, rfl⟩
  rw [Operand.operatorsOf, List.forall₂_map_left_iff, List.forall₂_map_right_iff, List.forall₂_same]
  exact fun q hq => operation_int hk (hfits q hq)

theorem asking_selects {db : Database} {row : Row} (hcell : row.get column.name = .integer n) :
    (column.asking asked).selects db row = true ↔ ∀ q ∈ asked, q.1.Relates n q.2 := by
  rw [asking, Condition.selects_all_iff, List.forall_mem_map]
  refine forall₂_congr fun q _ => ?_
  rw [Condition.selects_iff, Condition.eval, hcell, ← Comparison.admits_iff]
  exact Truth.ofBool_holds_iff

theorem asking_taken {o : Except Failure Cell} (h : o ∈ (Condition.all [column.asking asked]).operands) :
    ∃ cell, o = .ok cell := by
  obtain ⟨_, hin, ho⟩ := Condition.mem_operands_all h
  obtain rfl := List.mem_singleton.mp hin
  obtain ⟨_, hin, ho⟩ := Condition.mem_operands_all ho
  obtain ⟨q, _, rfl⟩ := List.mem_map.mp hin
  exact ⟨_, List.mem_singleton.mp ho⟩

end Column

namespace Catalog

/-- A field that is no relation has the type of its column. -/
theorem column_of_field {c : Catalog} {m : Model} {entity name : String} {field : Field}
    (hf : (c.entity entity m).field? name = some field) (hscalar : field.isRelation = false) :
    ∃ column, m.column? name = some column ∧ field.type = column.kind.scalarType := by
  unfold Entity.field? Catalog.entity at hf
  dsimp only at hf
  rw [List.find?_append, List.find?_map] at hf
  change (Option.map _ (m.column? name)).or _ = some field at hf
  cases hcolumn : m.column? name with
  | some column =>
      rw [hcolumn] at hf
      cases hf
      exact ⟨column, rfl, rfl⟩
  | none =>
      rw [hcolumn] at hf
      obtain ⟨l, _, rfl⟩ := List.mem_map.mp (List.mem_of_find?_eq_some hf)
      cases hscalar

end Catalog

theorem ColumnKind.scalarType_int {kind : ColumnKind} : kind.scalarType = "int" ↔ kind = .integer := by
  cases kind <;> decide

namespace Filter

variable {c : Catalog} {m : Model} {entity name : String} {field : Field} {operand : List Char}
  {asked told : List (Comparison × Int)}

/-- A clause that asks for integers is read as the comparisons with them, each one rounded. -/
theorem asking_rounded (h : c.WellFormed) (hm : c.model? entity = some m)
    (hf : (c.entity entity m).field? name = some field) (hscalar : field.isRelation = false) (htype : field.type = "int")
    (hname : Addressable name) (hasks : Operand.Asks operand asked) (hsize : ∀ q ∈ asked, q.2.natAbs.log2 < 1023) :
    ∃ told tree, Operand.RoundedTo asked told ∧ parse c.schema entity (clauseText name operand) = .ok tree ∧
      ((∀ q ∈ told, Column.Fits q.2) → ∃ cond, c.condition m (.object tree) = .ok cond ∧ cond.bind = .ok () ∧
        ∀ db row i, row.get name = .integer i → (cond.selects db row = true ↔ ∀ q ∈ told, q.1.Relates i q.2)) := by
  obtain ⟨told, hrounded, hcompared⟩ := Operand.compared_asks hasks hsize
  refine ⟨told, [(name, .object (Operand.operatorsOf told))], hrounded, ?_, fun hfits => ?_⟩
  · rw [parse_clauseText (c.schema_entity hm) hf hname (deniable_of_asks hasks),
      applyOperand_compared hasks.unlisted, hcompared]
    rfl
  · obtain ⟨column, hcolumn, hkind⟩ := Catalog.column_of_field hf hscalar
    have hk : column.kind = .integer := ColumnKind.scalarType_int.mp (hkind ▸ htype)
    have hcalled : column.name = name := by simpa using List.find?_some hcolumn
    have hl : m.link? name = none := by
      rw [← hcalled]
      exact h.apart _ (Catalog.mem_of_model? hm) column (List.mem_of_find?_eq_some hcolumn)
    refine ⟨.all [column.asking told], (Catalog.condition_column hname.unreserved hl hcolumn).mpr
      ⟨_, Column.condition_asking hk hfits, rfl⟩, Condition.bind_ok fun o ho => Column.asking_taken ho, ?_⟩
    intro db row i hcell
    rw [Condition.selects_iff, Condition.eval_all_single, ← Condition.selects_iff]
    exact Column.asking_selects (hcalled ▸ hcell)

theorem log2_of_fits {n : Int} (h : Column.Fits n) : n.natAbs.log2 < 1023 := by
  by_cases hzero : n.natAbs = 0
  · simp [hzero]
  · have hlt : n.natAbs < 2 ^ 64 := by
      obtain ⟨hlow, hhigh⟩ := h
      simp only [ColumnKind.greatestInteger] at hlow hhigh
      omega
    exact Nat.lt_trans ((Nat.log2_lt hzero).mpr hlt) (by decide)

/-- A clause that compares an integer field with integers in decimal digits, or asks that it lies between two, selects
the rows whose integer is so related to them, if they are integers of a cell with at most 53 bits, trailing zeros
aside. -/
theorem integer_operands_exact (h : c.WellFormed) (hm : c.model? entity = some m)
    (hf : (c.entity entity m).field? name = some field) (hscalar : field.isRelation = false) (htype : field.type = "int")
    (hname : Addressable name) (hasks : Operand.Asks operand asked) (hshort : ∀ q ∈ asked, Short q.2)
    (hfits : ∀ q ∈ asked, Column.Fits q.2) :
    ∃ tree cond, parse c.schema entity (clauseText name operand) = .ok tree ∧
      c.condition m (.object tree) = .ok cond ∧ cond.bind = .ok () ∧
      ∀ db row i, row.get name = .integer i → (cond.selects db row = true ↔ ∀ q ∈ asked, q.1.Relates i q.2) := by
  obtain ⟨told, tree, hrounded, htree, hread⟩ :=
    asking_rounded h hm hf hscalar htype hname hasks fun q hq => log2_of_fits (hfits q hq)
  obtain rfl := hrounded.eq_of_short hshort
  obtain ⟨cond, hcond, hbind, hselects⟩ := hread hfits
  exact ⟨tree, cond, htree, hcond, hbind, hselects⟩

theorem addressable_id : Addressable "id" where
  uncut := by simp
  trimmed := rfl
  unreserved := by decide

/-- The goods whose number lies between two others. -/
theorem goodIds_between :
    (shopCatalog.entity "Good" good).field? "id" =
      some { name := "id", type := "int", nullable := false, isKey := true } ∧
    Addressable "id" ∧ Operand.Asks "between:-1;3".toList [(.atLeast, -1), (.atMost, 3)] ∧
    Short (-1) ∧ Column.Fits (-1) ∧ Short 3 ∧ Column.Fits 3 ∧
    ∃ tree cond, parse shopCatalog.schema "Good" (clauseText "id" "between:-1;3".toList) = .ok tree ∧
      shopCatalog.condition good (.object tree) = .ok cond ∧ cond.bind = .ok () ∧
      cond.selects shopDatabase cheapGood = true := by
  have hf : (shopCatalog.entity "Good" good).field? "id" =
    some { name := "id", type := "int", nullable := false, isKey := true } := rfl
  have hlow : Operand.Writes "-1".toList (-(digitsValue [1])) := .negative rfl
  have hhigh : Operand.Writes "3".toList (digitsValue [3]) := .digits rfl
  have hasks : Operand.Asks "between:-1;3".toList [(.atLeast, -1), (.atMost, 3)] := .range hlow hhigh
  have hshort : ∀ q ∈ [(Comparison.atLeast, (-1 : Int)), (.atMost, 3)], Short q.2 := by
    simp [Binary64.short_of_lt]
  have hfits : ∀ q ∈ [(Comparison.atLeast, (-1 : Int)), (.atMost, 3)], Column.Fits q.2 := by
    simp [Column.Fits, ColumnKind.greatestInteger]
  obtain ⟨tree, cond, htree, hcond, hbind, hselects⟩ :=
    integer_operands_exact shopCatalog_wellFormed rfl hf rfl rfl addressable_id hasks hshort hfits
  refine ⟨hf, addressable_id, hasks, hshort _ List.mem_cons_self, hfits _ List.mem_cons_self,
    hshort (.atMost, 3) (by simp), hfits (.atMost, 3) (by simp), tree, cond, htree, hcond, hbind, ?_⟩
  exact (hselects shopDatabase cheapGood 1 rfl).mpr (by simp [Comparison.Relates])

def farGood : Row := [("id", .integer 9007199254740992), ("price", .real (.ofInt 2))]

/-- A number that a double has no bits for is taken for its neighbour. -/
theorem farGood_mistaken : Operand.Asks "9007199254740993".toList [(.equal, 9007199254740993)] ∧
    Column.Fits 9007199254740993 ∧ ¬ Short 9007199254740993 ∧
    ∃ tree cond, parse shopCatalog.schema "Good" (clauseText "id" "9007199254740993".toList) = .ok tree ∧
      shopCatalog.condition good (.object tree) = .ok cond ∧ cond.bind = .ok () ∧
      farGood.get "id" = .integer 9007199254740992 ∧ cond.selects { tables := [("Good", [farGood])] } farGood = true ∧
      ¬ Comparison.equal.Relates 9007199254740992 9007199254740993 := by
  have hspan : spanDigits "9007199254740993".toList = ([9, 0, 0, 7, 1, 9, 9, 2, 5, 4, 7, 4, 0, 9, 9, 3], []) := rfl
  have hwrites : Operand.Writes "9007199254740993".toList 9007199254740993 := by
    simpa [digitsValue] using Operand.Writes.digits hspan
  have hword : "" ∈ Comparison.equal.words := List.mem_cons_self
  have hlong : ¬ Short 9007199254740993 := by
    rintro ⟨m, zeros, hm, hn⟩
    cases zeros with
    | zero => omega
    | succ zeros =>
        rw [Nat.pow_succ, ← Nat.mul_assoc] at hn
        omega
  have htree : parse shopCatalog.schema "Good" (clauseText "id" "9007199254740993".toList) =
    .ok [("id", .object [("equals", .int 9007199254740992)])] := rfl
  exact ⟨.word hword hwrites, by simp [Column.Fits, ColumnKind.greatestInteger], hlong, _, _, htree, rfl, rfl, rfl, rfl,
    by simp [Comparison.Relates]⟩

end Filter

end RecordGraph
