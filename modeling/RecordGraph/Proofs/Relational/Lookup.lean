import RecordGraph.Proofs.Relational.Keys
import RecordGraph.Proofs.Relational.Undoing

/-!
# Looking up many keys at once

A read without an order and without bounds comes back with the records of all rows that satisfy its filter.
A column that has one of some values, and a filter that is one of some filters, are satisfied by the rows
that one of them selects.
-/

namespace RecordGraph

/-! ## Alternatives -/

namespace Condition

variable {db : Database} {row : Row} {conditions : List Condition}

theorem evalAny_holds_iff : evalAny db row conditions = .holds ↔ ∃ c ∈ conditions, c.eval db row = .holds := by
  induction conditions with
  | nil => simp [evalAny]
  | cons c cs ih => simp [evalAny, Truth.or_holds_iff, ih]

theorem selects_any_iff : (any conditions).selects db row = true ↔
    ∃ c ∈ conditions, c.selects db row = true := by
  simp [selects, eval, evalAny_holds_iff]

theorem isAmong_holds_iff {cell : Cell} {operands : List (Except Failure Cell)} :
    isAmong cell operands = .holds ↔ ∃ o ∈ operands, cell.same (cellOf o) = true := by
  have hfold : ∀ (operands : List (Except Failure Cell)) (t : Truth),
      operands.foldl (fun t o => t.or (Comparison.equal.eval cell (cellOf o))) t = .holds ↔
        t = .holds ∨ ∃ o ∈ operands, cell.same (cellOf o) = true := by
    intro operands
    induction operands with
    | nil => simp
    | cons o os ih =>
        intro t
        rw [List.foldl_cons, ih, Truth.or_holds_iff, Comparison.equal_holds_iff]
        simp [or_assoc]
  rw [isAmong, hfold]
  simp

theorem selects_among_iff {column : String} {operands : List (Except Failure Cell)} :
    (among column operands).selects db row = true ↔ ∃ o ∈ operands, (row.get column).same (cellOf o) = true := by
  rw [selects_iff, eval, isAmong_holds_iff]

theorem selects_equal_iff {column : String} {operand : Except Failure Cell} :
    (compare .equal column operand).selects db row = true ↔ (row.get column).same (cellOf operand) = true := by
  rw [selects_iff, eval, Comparison.equal_holds_iff]

end Condition

/-! ## Rows with a value -/

namespace Column

variable {column : Column} {v w : Value} {kind : ColumnKind} {db : Database} {row : Row} {cond : Condition}

/-- The cell that a value of a kind is looked for as. -/
def soughtAs (column : Column) (kind : ColumnKind) (w : Value) : Except Failure Cell :=
  (kind.bind w).map column.kind.keep

theorem equalTo_compares (hnull : v.isNull = false) (hcoerce : column.coerce v = .ok w)
    (hkind : ColumnKind.ofValue? w = some kind) :
    column.equalTo v = .ok (.compare .equal column.name (column.soughtAs kind w)) := by
  have hread : column.equalTo v = (do return column.equals (← column.coerce v) .equal) := by
    cases v with
    | null => cases hnull
    | bool _ | int _ | float _ | decimal _ | date _ | datetime _ | text _ | list _ | object _ => rfl
  rw [hread, hcoerce]
  cases w with
  | bool b => cases hkind; cases b <;> rfl
  | int _ | float _ | decimal _ | date _ | datetime _ | text _ => cases hkind; rfl
  | null | list _ | object _ => cases hkind

/-- A column has one of some values that are of one kind if it has any of them. -/
theorem oneOf_selects {vs : List Value} (hv : v ∈ vs)
    (hall : ∀ v ∈ vs, v.isNull = false ∧ ∃ w, column.coerce v = .ok w ∧ ColumnKind.ofValue? w = some kind)
    (h : column.oneOf vs = .ok cond) {own : Condition} (hown : column.equalTo v = .ok own)
    (hrow : own.selects db row = true) : cond.selects db row = true := by
  obtain ⟨hnull, w, hcoerce, hkind⟩ := hall v hv
  rw [equalTo_compares hnull hcoerce hkind] at hown
  cases hown
  obtain ⟨ws, hws, h⟩ := bind_ok_iff.mp h
  have hws := mapM_ok_forall₂ hws
  have hkinds : ∀ w ∈ ws, ColumnKind.ofValue? w = some kind := by
    intro w hw
    obtain ⟨v, hv, hcoerced⟩ := forall₂_partner hws.flip hw
    obtain ⟨_, w', hcoerce', hkind'⟩ := hall v hv
    cases hcoerced.symm.trans hcoerce'
    exact hkind'
  obtain ⟨w', hw', hcoerced⟩ := forall₂_partner hws hv
  cases hcoerce.symm.trans hcoerced
  have hnone : ws.any Value.isNull = false := by
    refine List.any_eq_false.mpr fun w hw hn => ?_
    have hk := hkinds w hw
    cases w with
    | null | list _ | object _ => cases hk
    | bool _ | int _ | float _ | decimal _ | date _ | datetime _ | text _ => cases hn
  have hfirst : (ws.head?.bind ColumnKind.ofValue?).getD column.kind = kind := by
    cases ws with
    | nil => cases hw'
    | cons first rest => rw [List.head?_cons, Option.bind_some, hkinds first List.mem_cons_self]; rfl
  rw [hnone, if_neg Bool.false_ne_true] at h
  dsimp only at h
  rw [hfirst] at h
  cases h
  refine Condition.selects_among_iff.mpr ⟨_, List.mem_map_of_mem hw', ?_⟩
  exact Condition.selects_equal_iff.mp hrow

theorem oneOf_filled {vs : List Value} (h : column.oneOf vs = .ok cond) (hrow : cond.selects db row = true) :
    (row.get column.name).isNull = false := by
  have hamong {operands : List (Except Failure Cell)} (hc : cond = .among column.name operands) :
      (row.get column.name).isNull = false := by
    subst hc
    obtain ⟨_, _, hsame⟩ := Condition.selects_among_iff.mp hrow
    exact (Cell.same_iff.mp hsame).1
  obtain ⟨ws, _, h⟩ := bind_ok_iff.mp h
  split at h
  · split at h
    · cases h
    · exact hamong (pure_ok_iff.mp h).symm
  · exact hamong (pure_ok_iff.mp h).symm

theorem equalTo_filled (hnull : v.isNull = false) (h : column.equalTo v = .ok cond)
    (hrow : cond.selects db row = true) : (row.get column.name).isNull = false := by
  have hequal {operand : Except Failure Cell} (hc : cond = .compare .equal column.name operand) :
      (row.get column.name).isNull = false := by
    subst hc
    exact (Cell.same_iff.mp (Condition.selects_equal_iff.mp hrow)).1
  unfold equalTo at h
  split at h
  · cases hnull
  · obtain ⟨w, _, h⟩ := bind_ok_iff.mp h
    cases w with
    | bool b => exact hequal (pure_ok_iff.mp h).symm
    | null | int _ | float _ | decimal _ | date _ | datetime _ | text _ | list _ | object _ =>
        exact hequal (pure_ok_iff.mp h).symm

end Column

/-! ## Integers and texts -/

namespace Value

theorem shown_int {n : Int} : (Value.int n).shown =
    .ofList (if n < 0 then '-' :: Nat.toDigits 10 n.natAbs else Nat.toDigits 10 n.natAbs) := rfl

theorem toDigits_inj {m n : Nat} (h : Nat.toDigits 10 m = Nat.toDigits 10 n) : m = n := by
  rw [← Nat.ofDigitChars_ten_toDigits (n := m), h, Nat.ofDigitChars_ten_toDigits]

/-- Neither a sign nor a letter is a digit. -/
theorem toDigits_ne_cons {n : Nat} {ch : Char} {rest : List Char} (hch : ch.isDigit = false) :
    Nat.toDigits 10 n ≠ ch :: rest := by
  intro h
  have hdigit := Nat.isDigit_of_mem_toDigits (by decide) (by decide) (h ▸ List.mem_cons_self)
  rw [hch] at hdigit
  cases hdigit

theorem shown_int_inj {m n : Int} : (Value.int m).shown = (Value.int n).shown ↔ m = n := by
  refine ⟨fun h => ?_, fun h => by rw [h]⟩
  rw [shown_int, shown_int, String.ofList_inj] at h
  split at h <;> split at h
  · have habs := toDigits_inj (List.cons.inj h).2
    omega
  · exact absurd h.symm (toDigits_ne_cons rfl)
  · exact absurd h (toDigits_ne_cons rfl)
  · have habs := toDigits_inj h
    omega

theorem shown_int_ne_null {n : Int} : (Value.int n).shown ≠ Value.null.shown := by
  rw [shown_int, show Value.null.shown = .ofList ['N', 'o', 'n', 'e'] from rfl]
  intro h
  rw [String.ofList_inj] at h
  split at h
  · cases h
  · exact toDigits_ne_cons rfl h

end Value

namespace Column

variable {column : Column} {db : Database} {stored : Row}

/-- An integer that a cell can hold. -/
def Fits (n : Int) : Prop := -ColumnKind.greatestInteger - 1 ≤ n ∧ n ≤ ColumnKind.greatestInteger

theorem coerce_int (hk : column.kind = .integer) {n : Int} : column.coerce (.int n) = .ok (.int n) := by
  rw [coerce, hk]
  rfl

theorem coerce_text (hk : column.kind = .text) {s : String} : column.coerce (.text s) = .ok (.text s) := by
  rw [coerce, hk]
  rfl

theorem soughtAs_int (hk : column.kind = .integer) {n : Int} (hn : Fits n) :
    column.soughtAs .integer (.int n) = .ok (.integer n) := by
  have hbind : ColumnKind.integer.bind (.int n) = .ok (.integer n) := by
    refine if_neg ?_
    rintro (hlow | hhigh)
    · exact absurd hn.1 (by omega)
    · exact absurd hn.2 (by omega)
  rw [soughtAs, hbind, hk]
  rfl

theorem soughtAs_text (hk : column.kind = .text) {s : String} :
    column.soughtAs .text (.text s) = .ok (.text s) := by
  rw [soughtAs, hk]
  rfl

theorem equalTo_int (hk : column.kind = .integer) {n k : Int} (hn : Fits n)
    (hcell : stored.get column.name = .integer k) :
    ∃ cond, column.equalTo (.int n) = .ok cond ∧ (cond.selects db stored = true ↔ k = n) := by
  refine ⟨_, equalTo_compares rfl (coerce_int hk) rfl, ?_⟩
  rw [Condition.selects_equal_iff, hcell, soughtAs_int hk hn, Cell.same_iff]
  simp [Condition.cellOf, Cell.isNull, Cell.rank, Rat.mkRat_one]

theorem equalTo_text (hk : column.kind = .text) {s t : String} (hcell : stored.get column.name = .text t) :
    ∃ cond, column.equalTo (.text s) = .ok cond ∧ (cond.selects db stored = true ↔ t = s) := by
  refine ⟨_, equalTo_compares rfl (coerce_text hk) rfl, ?_⟩
  rw [Condition.selects_equal_iff, hcell, soughtAs_text hk, Cell.same_iff]
  simp [Condition.cellOf, Cell.isNull, Cell.rank]

end Column

/-! ## Reads of all rows -/

namespace Row

variable {m : Model} {row : Row} {name : String} {column : Column}

theorem get_values (h : m.column? name = some column) :
    Object.get (row.values m) name = column.kind.read (row.get name) := by
  unfold values
  rw [Model.column?] at h
  generalize m.columns = columns at h
  induction columns with
  | nil => cases h
  | cons first rest ih =>
      by_cases hn : first.name = name
      · rw [List.find?_cons_of_pos (by simpa using hn)] at h
        cases h
        simp [Object.get, Object.get?, hn]
      · rw [List.find?_cons_of_neg (by simpa using hn)] at h
        simpa [Object.get, Object.get?, hn] using ih h

end Row

namespace Catalog

variable {c : Catalog} {m : Model} {db db' : Database} {entity : String} {p : Plan} {records : List Value}

theorem shown_ok {row : Row} {record : Value} (h : (Value.object <$> c.shown m p row).runOn db = (.ok record, db')) :
    ∃ o, record = .object o ∧ c.record db p.levels m p.loads p.shape row = .ok o := by
  simp only [shown, map_eq_pure_bind, bind_assoc, Act.runOn_bind_ok_iff, Act.runOn_get_ok_iff,
    Act.runOn_liftM_ok_iff, Act.runOn_pure_ok_iff] at h
  obtain ⟨_, _, ⟨rfl, rfl⟩, o, _, ⟨ho, rfl⟩, rfl, _⟩ := h
  exact ⟨o, rfl, ho⟩

/-- Without an order and without bounds, the records are those of the rows that satisfy the filter. -/
theorem findMany_whole (hm : c.model? entity = some m) (ho : p.order = none) (ht : p.take = none) (hs : p.skip = none)
    (h : (c.findMany entity p).runOn db = (.ok records, db')) :
    (∃ cond, c.condition m (.object p.filter) = .ok cond) ∧
    (∀ record ∈ records, ∃ row ∈ db.rows m, c.Satisfies m db row (.object p.filter) ∧
      ∃ o, record = .object o ∧ c.record db p.levels m p.loads p.shape row = .ok o) ∧
    ∀ row ∈ db.rows m, c.Satisfies m db row (.object p.filter) →
      ∃ o, .object o ∈ records ∧ c.record db p.levels m p.loads p.shape row = .ok o := by
  simp only [findMany, chosen, ho, ht, hs, Option.getD_none, bind_assoc, Act.runOn_bind_ok_iff,
    Act.runOn_liftM_ok_iff, Act.runOn_get_ok_iff] at h
  obtain ⟨_, _, ⟨hmodel, rfl⟩, cond, _, ⟨hcond, rfl⟩, sorting, _, ⟨hsort, rfl⟩, _, _, ⟨_, rfl⟩, _, _, ⟨_, rfl⟩,
    _, _, ⟨_, rfl⟩, _, _, ⟨rfl, rfl⟩, rows, _, hrows, _, _, ⟨_, rfl⟩, _, _, ⟨_, rfl⟩, h⟩ := h
  cases (model_ok_iff.mp hmodel).symm.trans hm
  cases hsort
  rw [Sorting.sort_unordered, Act.runOn_pure_ok_iff] at hrows
  obtain ⟨rfl, rfl⟩ := hrows
  obtain ⟨_, hall⟩ := Act.runOn_mapM_ok (fun row _ _ hs => (shown_still row).run hs) h
  have hmem {db : Database} {row : Row} : row ∈ (bounded none ((db.select m cond).drop 0)).eraseDups ↔
      row ∈ db.rows m ∧ cond.selects db row = true := by
    rw [List.mem_eraseDups]
    exact List.mem_filter
  refine ⟨⟨cond, hcond⟩, fun record hrecord => ?_, fun row hrow hsat => ?_⟩
  · obtain ⟨row, hin, hshown⟩ := forall₂_partner hall.flip hrecord
    obtain ⟨hrow, hsel⟩ := hmem.mp hin
    exact ⟨row, hrow, ⟨cond, hcond, hsel⟩, shown_ok hshown⟩
  · obtain ⟨cond', hcond', hsel⟩ := hsat
    cases hcond.symm.trans hcond'
    obtain ⟨record, hrecord, hshown⟩ := forall₂_partner hall (hmem.mpr ⟨hrow, hsel⟩)
    obtain ⟨o, rfl, ho⟩ := shown_ok hshown
    exact ⟨o, hrecord, ho⟩

end Catalog

end RecordGraph
