import RecordGraph.Proofs.Filter.Literals
import RecordGraph.Proofs.Operation.Identity
import RecordGraph.Proofs.Relational.Lookup
import RecordGraph.Proofs.Text.Splitting

/-!
# Ids that are joined texts

The texts of the values of several key fields, joined by tildes, are an id that is read as these values again: an integer
is written in decimal digits, and a text stands for itself as long as it has no tilde. Numerals have a greatest length,
beyond which an integer is refused.
-/

namespace RecordGraph

/-! ## Integers -/

section Integers

variable {cs : List Char} {ch : Char} {negative : Bool} {n : Nat}

/-- A character of a numeral that is neither left out nor cut off. -/
def isFigure (ch : Char) : Prop := isMargin ch = false ∧ ch ≠ '_'

theorem isFigure_of_isDigit (h : ch.isDigit = true) : isFigure ch := by
  have hrange := isDigit_iff.mp h
  refine ⟨?_, ?_⟩
  · simp [isMargin, isBlank]
    omega
  · rintro rfl
    cases h

theorem dropUnderscores_figures (h : ∀ ch ∈ cs, isFigure ch) : dropUnderscores cs = some cs := by
  have hgo (previous : Bool) : dropUnderscores.go previous cs = some cs := by
    induction cs generalizing previous with
    | nil => rfl
    | cons ch cs ih =>
        have hch := (h ch List.mem_cons_self).2
        have hcs := ih (fun ch hin => h ch (List.mem_cons_of_mem _ hin)) (isDecimal ch)
        rw [dropUnderscores.go, hcs]
        · rfl
        · rintro rfl
          exact absurd rfl hch
        · rintro _ _ rfl
          exact absurd rfl hch
  exact hgo false

/-- Nothing is cut off at either end. -/
theorem dropWhile_figures (h : ∀ ch ∈ cs, isFigure ch) : cs.dropWhile isMargin = cs := by
  cases cs with
  | nil => rfl
  | cons ch cs => exact List.dropWhile_cons_of_neg (by simp [(h ch List.mem_cons_self).1])

/-- Nothing is left out of a numeral. -/
theorem readInteger?_eq (h : ∀ ch ∈ cs, isFigure ch) : readInteger? cs = match spanDigits (spanSign cs).2 with
    | ([], _) => none
    | (ds, []) => if integerDigitLimit < ds.length then none else
      some (if (spanSign cs).1 then -(digitsValue ds : Int) else digitsValue ds)
    | _ => none := by
  have hreverse : ∀ ch ∈ cs.reverse, isFigure ch := fun ch hin => h ch (List.mem_reverse.mp hin)
  have hread : dropUnderscores ((cs.dropWhile isMargin).reverse.dropWhile isMargin).reverse = some cs := by
    rw [dropWhile_figures h, dropWhile_figures hreverse, List.reverse_reverse, dropUnderscores_figures h]
  rw [readInteger?]
  exact congrArg (· >>= _) hread

/-- A signed numeral is read as the number that its digits write, if there are not too many of them. -/
theorem readInteger?_signed {digits : List Char} {d : Nat} {ds : List Nat} (h : ∀ ch ∈ cs, isFigure ch)
    (hsign : spanSign cs = (negative, digits)) (hdigits : spanDigits digits = (d :: ds, [])) :
    readInteger? cs = if integerDigitLimit < (d :: ds).length then none else
      some (if negative then -(digitsValue (d :: ds) : Int) else digitsValue (d :: ds)) := by
  simp only [readInteger?_eq h, hsign, hdigits]

/-- A numeral that is read as an integer has digits, not too many, behind one sign or none. -/
theorem readInteger?_some {i : Int} (h : ∀ ch ∈ cs, isFigure ch) (hread : readInteger? cs = some i) :
    ∃ d ds, spanDigits (spanSign cs).2 = (d :: ds, []) ∧ (d :: ds).length ≤ integerDigitLimit ∧
      i = if (spanSign cs).1 then -(digitsValue (d :: ds) : Int) else digitsValue (d :: ds) := by
  rw [readInteger?_eq h] at hread
  split at hread
  · cases hread
  · rename_i ds hsome hds
    split at hread
    · cases hread
    · rename_i hlimit
      obtain ⟨d, ds, rfl⟩ := List.exists_cons_of_ne_nil hsome
      exact ⟨d, ds, hds, Nat.not_lt.mp hlimit, (Option.some.inj hread).symm⟩
  · cases hread

theorem readInteger?_figures (h : ∀ ch ∈ cs, isFigure ch) (hsign : spanSign cs = (negative, Nat.toDigits 10 n)) :
    readInteger? cs =
      if integerDigitLimit < (Nat.toDigits 10 n).length then none else some (if negative then -(n : Int) else n) := by
  have hdigits : Digits (Nat.toDigits 10 n) := digits_toDigits
  have hspan := spanDigits_digits hdigits.2
  cases hds : (Nat.toDigits 10 n).map fun ch => ch.toNat - 48 with
  | nil => exact absurd (List.map_eq_nil_iff.mp hds) hdigits.1
  | cons d ds =>
      have hlength := congrArg List.length hds
      rw [List.length_map] at hlength
      rw [readInteger?_signed h hsign (hds ▸ hspan), ← hds, digitsValue_toDigits, hds, ← hlength]

/-- The text of an integer is read as the integer. -/
theorem readInteger?_shown (n : Int) : readInteger? (Value.int n).shown.toList =
    if integerDigitLimit < (Nat.toDigits 10 n.natAbs).length then none else some n := by
  have hdigits : ∀ ch ∈ Nat.toDigits 10 n.natAbs, isFigure ch :=
    fun ch hin => isFigure_of_isDigit (digits_toDigits.2 ch hin)
  rw [Value.shown_int, String.toList_ofList]
  by_cases hn : n < 0
  · rw [if_pos hn, readInteger?_figures (List.forall_mem_cons.mpr ⟨⟨rfl, by decide⟩, hdigits⟩) rfl]
    congr 2
    simp only [if_true]
    omega
  · have hsign : spanSign (Nat.toDigits 10 n.natAbs) = (false, Nat.toDigits 10 n.natAbs) := by
      unfold spanSign
      split
      · rename_i heq
        exact absurd heq (Value.toDigits_ne_cons rfl)
      · rename_i heq
        exact absurd heq (Value.toDigits_ne_cons rfl)
      · rfl
    rw [if_neg hn, readInteger?_figures hdigits hsign]
    congr 2
    simp only [Bool.false_eq_true, if_false]
    omega

theorem lt_length_toDigits_pow (h : 0 < n) : n < (Nat.toDigits 10 (10 ^ n)).length := by
  rw [← Nat.not_le, Nat.length_toDigits_le_iff (by decide) h]
  exact Nat.lt_irrefl _

end Integers

namespace Key

variable {s : Schema} {entity : String} {e : Entity} {type text : String} {v : Value} {values others : String → Value}

/-! ## Parts -/

/-- A value of a key field whose text can be a part of an id. -/
inductive IsPart : String → Value → Prop
  | integer {n : Int} : IsPart "int" (.int n)
  | text {s : String} (h : '~' ∉ s.toList) : IsPart "string" (.text s)

/-- The numeral of an integer is short enough to be read. -/
def IsShort : Value → Prop
  | .int n => (Nat.toDigits 10 n.natAbs).length ≤ integerDigitLimit
  | _ => True

/-- What is said of an integer whose numeral is too long. -/
def overlong (v : Value) : Failure := .validation "invalid_id" (some [("value", .text v.shown), ("type", .text "int")])

theorem IsPart.untouched (h : IsPart type v) : '~' ∉ v.shown.toList := by
  cases h with
  | @integer n =>
      intro hin
      rw [Value.shown_int, String.toList_ofList] at hin
      have hdigits : '~' ∉ Nat.toDigits 10 n.natAbs := fun hin => absurd (digits_toDigits.2 _ hin) (by decide)
      split at hin
      · exact hdigits (List.mem_of_ne_of_mem (by decide) hin)
      · exact hdigits hin
  | text h => exact h

/-- A value is read from its text, unless it is an integer whose numeral is too long. -/
theorem IsPart.readPart_short (h : IsPart type v) (hs : IsShort v) : readPart type v.shown = .ok v := by
  cases h with
  | integer =>
      simp only [readPart, readInteger?_shown, if_neg (Nat.not_lt.mpr hs)]
      rfl
  | text => rfl

theorem IsPart.readPart_long (h : IsPart type v) (hl : ¬ IsShort v) : readPart type v.shown = .error (overlong v) := by
  cases h with
  | integer =>
      simp only [readPart, readInteger?_shown, if_pos (Nat.not_le.mp hl)]
      rfl
  | text => exact absurd trivial hl

/-! ## Ids -/

/-- The key fields have values whose texts can be parts of an id. -/
def Parts (e : Entity) (values : String → Value) : Prop :=
  ∀ k ∈ e.keys, ∃ f, e.field? k = some f ∧ IsPart f.type (values k)

/-- The texts of the values of the key fields, with tildes between them. -/
def joinedId (e : Entity) (values : String → Value) : String := joinTexts "~" (e.keys.map fun k => (values k).shown)

/-- The condition that the key fields have some values. -/
def addressed (e : Entity) (values : String → Value) : Object :=
  [(e.keyName, .object (Object.ofMembers (e.keys.map fun k => (k, values k))))]

/-- What is said of an id that has not one part for each key field. -/
def miscounted (e : Entity) (text : String) : Failure :=
  .validation "invalid_composite_key"
    (some [("expected", .texts e.keys), ("received", .int (splitText '~' text).length)])

theorem whereId_joined (he : s.entity entity = .ok e) (hc : e.isComposite = true) (htext : '~' ∈ text.toList) :
    whereId s entity (.text text) =
      if (splitText '~' text).length ≠ e.keys.length then .error (miscounted e text)
      else (fun members => [(e.keyName, .object (Object.ofMembers members))]) <$>
        (e.keys.zip (splitText '~' text)).mapM fun kp => do
          return (kp.1, ← readPart (((e.field? kp.1).map (·.type)).getD "") kp.2) := by
  have hjoined : text.toList.contains '~' = true := by simpa using htext
  simp only [whereId, he, bind, Except.bind, hc, hjoined, Bool.not_true, Bool.false_eq_true, if_false]
  split
  · rfl
  · rw [map_eq_pure_bind]
    rfl

theorem splitText_joinedId (hp : Parts e values) (hc : e.isComposite = true) :
    splitText '~' (joinedId e values) = e.keys.map fun k => (values k).shown := by
  have hne : (e.keys.map fun k => (values k).shown.toList) ≠ [] := by
    intro hnil
    simp [Entity.isComposite, List.map_eq_nil_iff.mp hnil] at hc
  have hfree : ∀ part ∈ e.keys.map fun k => (values k).shown.toList, '~' ∉ part := by
    intro part hin
    obtain ⟨k, hk, rfl⟩ := List.mem_map.mp hin
    obtain ⟨_, _, hpart⟩ := hp k hk
    exact hpart.untouched
  rw [splitText, joinedId, joinTexts, String.toList_ofList, List.map_map]
  show (splitAt '~' (joinWith ['~'] (e.keys.map fun k => (values k).shown.toList))).map String.ofList = _
  rw [splitAt_joinWith hne hfree, List.map_map]
  simp [Function.comp_def]

theorem mem_joinedId (hp : Parts e values) (hc : e.isComposite = true) : '~' ∈ (joinedId e values).toList := by
  by_contra hfree
  have hparts := congrArg List.length (splitText_joinedId hp hc)
  rw [splitText, splitAt_whole hfree] at hparts
  simp [Entity.isComposite, ← show 1 = e.keys.length by simpa using hparts] at hc

/-- The texts of the parts are read field by field. -/
theorem whereId_joinedId (he : s.entity entity = .ok e) (hc : e.isComposite = true) (hp : Parts e values) :
    whereId s entity (.text (joinedId e values)) =
      (fun members => [(e.keyName, .object (Object.ofMembers members))]) <$>
        (e.keys.map fun k => (k, (values k).shown)).mapM fun kp => do
          return (kp.1, ← readPart (((e.field? kp.1).map (·.type)).getD "") kp.2) := by
  have hlength : ¬ (splitText '~' (joinedId e values)).length ≠ e.keys.length := by simp [splitText_joinedId hp hc]
  rw [whereId_joined he hc (mem_joinedId hp hc), if_neg hlength, splitText_joinedId hp hc, List.map_prod_left_eq_zip]

/-- The values are read from their texts again. -/
theorem whereId_short (he : s.entity entity = .ok e) (hc : e.isComposite = true) (hp : Parts e values)
    (hs : ∀ k ∈ e.keys, IsShort (values k)) : whereId s entity (.text (joinedId e values)) = .ok (addressed e values) := by
  rw [whereId_joinedId he hc hp, map_ok_iff]
  refine ⟨_, mapM_ok_iff.mpr ?_, rfl⟩
  rw [List.forall₂_map_left_iff, List.forall₂_map_right_iff, List.forall₂_same]
  intro k hk
  obtain ⟨f, hf, hpart⟩ := hp k hk
  simp only [hf, Option.map_some, Option.getD_some, hpart.readPart_short (hs k hk)]
  rfl

/-- If one of the values is too long, one such is reported. -/
theorem whereId_long (he : s.entity entity = .ok e) (hc : e.isComposite = true) (hp : Parts e values)
    (hl : ∃ k ∈ e.keys, ¬ IsShort (values k)) :
    ∃ k ∈ e.keys, ¬ IsShort (values k) ∧ whereId s entity (.text (joinedId e values)) = .error (overlong (values k)) := by
  have hfails : FailsOnly (fun failure => ∃ k ∈ e.keys, ¬ IsShort (values k) ∧ failure = overlong (values k))
      (whereId s entity (.text (joinedId e values))) := by
    rw [whereId_joinedId he hc hp]
    refine .map (.mapM fun kp hin => ?_)
    obtain ⟨k, hk, rfl⟩ := List.mem_map.mp hin
    obtain ⟨f, hf, hpart⟩ := hp k hk
    simp only [hf, Option.map_some, Option.getD_some]
    refine FailsOnly.bind (fun failure hfailure => ?_) fun _ _ => .ok
    by_cases hs : IsShort (values k)
    · rw [hpart.readPart_short hs] at hfailure
      cases hfailure
    · rw [hpart.readPart_long hs] at hfailure
      cases hfailure
      exact ⟨k, hk, hs, rfl⟩
  cases hread : whereId s entity (.text (joinedId e values)) with
  | error failure =>
      obtain ⟨k, hk, hlong, rfl⟩ := hfails failure hread
      exact ⟨k, hk, hlong, rfl⟩
  | ok condition =>
      -- all parts were read, the one that is too long as well
      obtain ⟨k, hk, hlong⟩ := hl
      rw [whereId_joinedId he hc hp, map_ok_iff] at hread
      obtain ⟨members, hmembers, -⟩ := hread
      obtain ⟨member, -, hmember⟩ := forall₂_partner (mapM_ok_iff.mp hmembers) (List.mem_map_of_mem hk)
      obtain ⟨f, hf, hpart⟩ := hp k hk
      simp only [hf, Option.map_some, Option.getD_some, hpart.readPart_long hlong] at hmember
      cases hmember

/-- The condition says what each value is. -/
theorem addressed_inj (h : addressed e values = addressed e others) : ∀ k ∈ e.keys, values k = others k := by
  intro k hk
  simp only [addressed, List.cons.injEq, Prod.mk.injEq, Value.object.injEq, true_and, and_true] at h
  have hget := congrArg (Object.get? k) h
  simpa only [Object.get?_ofMembers_map, if_pos hk, Option.some.injEq] using hget

/-- The texts of integers and of texts without a tilde, joined by tildes, are read as these values again, unless one
of the integers is too long, which is then reported. So no two choices of values are read as the same condition. A text
that has another number of parts is refused. -/
theorem joined_ids_read (he : s.entity entity = .ok e) (hc : e.isComposite = true) :
    (∀ values, Parts e values →
      ((∀ k ∈ e.keys, IsShort (values k)) → whereId s entity (.text (joinedId e values)) = .ok (addressed e values)) ∧
      ((∃ k ∈ e.keys, ¬ IsShort (values k)) → ∃ k ∈ e.keys, ¬ IsShort (values k) ∧
        whereId s entity (.text (joinedId e values)) = .error (overlong (values k)))) ∧
    (∀ values others condition, Parts e values → Parts e others →
      whereId s entity (.text (joinedId e values)) = .ok condition →
      whereId s entity (.text (joinedId e others)) = .ok condition → ∀ k ∈ e.keys, values k = others k) ∧
    ∀ text : String, '~' ∈ text.toList → (splitText '~' text).length ≠ e.keys.length →
      whereId s entity (.text text) = .error (miscounted e text) := by
  have hreads {values : String → Value} {condition : Object} (hp : Parts e values)
      (h : whereId s entity (.text (joinedId e values)) = .ok condition) : condition = addressed e values := by
    by_cases hs : ∀ k ∈ e.keys, IsShort (values k)
    · rw [whereId_short he hc hp hs] at h
      cases h
      rfl
    · push Not at hs
      obtain ⟨_, _, _, hlong⟩ := whereId_long he hc hp hs
      rw [hlong] at h
      cases h
  refine ⟨fun values hp => ⟨whereId_short he hc hp, whereId_long he hc hp⟩, fun values others condition hp hp' h h' => ?_,
    fun text htext hcount => by rw [whereId_joined he hc htext, if_pos hcount]⟩
  exact addressed_inj ((hreads hp h).symm.trans (hreads hp' h'))

/-! Shelf marks: a room, which may lie below ground, and the name of a shelf. -/

def shelfEntity : Entity where
  name := "Shelf"
  keys := ["room", "name"]
  fields := [{ name := "room", type := "int" }, { name := "name", type := "string" }]
  relations := []

def shelfSchema : Schema := ⟨[("Shelf", .ok shelfEntity)]⟩

def shelfMark (room : Int) (name : String) : String → Value := fun k => if k = "room" then .int room else .text name

theorem shelfMark_parts {room : Int} {name : String} (h : '~' ∉ name.toList) : Parts shelfEntity (shelfMark room name) := by
  intro k hk
  simp only [shelfEntity, List.mem_cons, List.not_mem_nil, or_false] at hk
  rcases hk with rfl | rfl
  · exact ⟨_, rfl, .integer⟩
  · exact ⟨_, rfl, .text h⟩

/-- A shelf without a name in a room below ground is told from all others. -/
theorem nameless_shelf_read :
    shelfSchema.entity "Shelf" = .ok shelfEntity ∧ shelfEntity.isComposite = true ∧
    whereId shelfSchema "Shelf" (.text "-2~") =
      .ok [("room_name", .object [("room", .int (-2)), ("name", .text "")])] ∧
    (∀ values condition, Parts shelfEntity values →
      whereId shelfSchema "Shelf" (.text (joinedId shelfEntity values)) = .ok condition →
      condition = [("room_name", .object [("room", .int (-2)), ("name", .text "")])] →
      values "room" = .int (-2) ∧ values "name" = .text "") ∧
    whereId shelfSchema "Shelf" (.text "~-2~") = .error (miscounted shelfEntity "~-2~") := by
  have he : shelfSchema.entity "Shelf" = .ok shelfEntity := rfl
  obtain ⟨hread, htold, hcount⟩ := joined_ids_read he (show shelfEntity.isComposite = true from rfl)
  have hparts : Parts shelfEntity (shelfMark (-2) "") := shelfMark_parts (by decide)
  have hshort : ∀ k ∈ shelfEntity.keys, IsShort (shelfMark (-2) "" k) := by
    intro k hk
    simp only [shelfEntity, List.mem_cons, List.not_mem_nil, or_false] at hk
    rcases hk with rfl | rfl
    · show (Nat.toDigits 10 2).length ≤ integerDigitLimit
      decide
    · trivial
  have hmark : whereId shelfSchema "Shelf" (.text "-2~") =
      .ok [("room_name", .object [("room", .int (-2)), ("name", .text "")])] := (hread _ hparts).1 hshort
  refine ⟨he, rfl, hmark, fun values condition hp hvalues hcondition => ?_, hcount "~-2~" (by decide) (by decide)⟩
  have hsame := htold values (shelfMark (-2) "") condition hp hparts hvalues (hcondition ▸ hmark)
  exact ⟨hsame "room" (by decide), hsame "name" (by decide)⟩

/-- A room whose number takes more digits than are read has no shelf marks. -/
theorem distant_room_refused :
    Parts shelfEntity (shelfMark (10 ^ integerDigitLimit) "a") ∧
    whereId shelfSchema "Shelf" (.text (joinedId shelfEntity (shelfMark (10 ^ integerDigitLimit) "a"))) =
      .error (overlong (.int (10 ^ integerDigitLimit))) ∧
    whereId shelfSchema "Shelf" (.text (joinedId shelfEntity (shelfMark (10 ^ integerDigitLimit) "a"))) ≠
      .ok (addressed shelfEntity (shelfMark (10 ^ integerDigitLimit) "a")) := by
  have hparts : Parts shelfEntity (shelfMark (10 ^ integerDigitLimit) "a") := shelfMark_parts (by decide)
  have hlong : ¬ IsShort (.int (10 ^ integerDigitLimit)) := by
    have habs (k : Nat) : (10 ^ k : Int).natAbs = 10 ^ k := by simp [Int.natAbs_pow]
    rw [IsShort, habs]
    exact Nat.not_le.mpr (lt_length_toDigits_pow (by decide))
  have he : shelfSchema.entity "Shelf" = .ok shelfEntity := rfl
  obtain ⟨k, hk, hone, hread⟩ := whereId_long he rfl hparts ⟨"room", by decide, hlong⟩
  simp only [shelfEntity, List.mem_cons, List.not_mem_nil, or_false] at hk
  rcases hk with rfl | rfl
  · exact ⟨hparts, hread, by rw [hread]; simp⟩
  · exact absurd trivial hone

end Key

end RecordGraph
