import RecordGraph.Proofs.Relational.Sieving
import RecordGraph.Proofs.Relational.Storable

/-!
# Keeping identities unique

A table admits some given rows, one after the other, if none of them shares an identity with a row that is there
or with an earlier one, and numbers that are still to be assigned are assigned last. To insert the row of the
first of them does not break a constraint of uniqueness, and the table then admits the others.
-/

namespace RecordGraph

/-- What an engine says of a row that shares an identity with another. -/
def EngineError.OfUniqueness (e : EngineError) : Prop :=
  e.kind = .integrity ∧ ∃ columns, e.message = "UNIQUE constraint failed: " ++ columns

/-- The failure of a row that shares an identity with another, by itself or as the cause of a fault. -/
def Failure.OfUniqueness : Failure → Prop
  | .engine e => e.OfUniqueness
  | .fault f => ∃ e, f.cause = some e ∧ e.OfUniqueness
  | _ => False

/-! ## Cells of a row -/

namespace Row

variable {r : Row} {name other : String} {cell : Cell}

theorem get_set_of_ne (h : other ≠ name) : (r.set name cell).get other = r.get other := by
  unfold get set
  induction r with
  | nil => rfl
  | cons first r ih =>
      obtain ⟨own, old⟩ := first
      rw [List.map_cons, List.lookup_cons, List.lookup_cons]
      cases hown : other == own with
      | false => exact ih
      | true =>
          rw [← beq_iff_eq.mp hown, if_neg (by simpa using h)]

theorem get_set_self : (r.set name cell).get name = cell ∨ (r.set name cell).get name = .null := by
  unfold get set
  induction r with
  | nil => exact .inr rfl
  | cons first r ih =>
      obtain ⟨own, old⟩ := first
      rw [List.map_cons, List.lookup_cons]
      cases hown : name == own with
      | false => exact ih
      | true =>
          left
          rw [← beq_iff_eq.mp hown]
          simp

end Row

theorem Cell.same_integer_iff {n k : Int} : (Cell.integer n).same (.integer k) = true ↔ n = k := by
  rw [Cell.same_iff]
  simp [Cell.isNull, Cell.rank, Rat.mkRat_one]

theorem Database.rowsOf_setRows {db : Database} {name : String} {rows : List Row} :
    (db.setRows name rows).rowsOf name = rows := by
  rw [Database.rowsOf, Database.setRows, Database.lookup_setEntry]
  simp

namespace Catalog

variable {m : Model} {stored : List Row} {rows : List Object} {row : Object} {r : Row} {columns : List Column}
  {column : Column}

theorem mem_identities (h : columns ∈ identities m) : ∀ column ∈ columns, column ∈ m.columns := by
  intro column hcolumn
  rcases List.mem_cons.mp h with rfl | h
  · exact (List.mem_filter.mp hcolumn).1
  · obtain ⟨own, hown, rfl⟩ := List.mem_map.mp h
    exact List.mem_singleton.mp hcolumn ▸ (List.mem_filter.mp hown).1

/-- A row that is refused for its uniqueness shares an identity with another. -/
theorem shares_of_violation {e : EngineError} (h : Database.violation? m stored r = some e) (he : e.OfUniqueness) :
    ∃ columns ∈ identities m, ∃ other ∈ stored, shares columns r.cells other.cells = true := by
  obtain ⟨_, named, hmessage⟩ := he
  unfold Database.violation? at h
  dsimp only at h
  split at h
  · cases h
    replace hmessage : "datatype mismatch" = "UNIQUE constraint failed: " ++ named := hmessage
    simpa using congrArg String.toList hmessage
  · split at h
    next column _ =>
      cases h
      replace hmessage : "NOT NULL constraint failed: " ++ (m.table ++ "." ++ column.name) =
        "UNIQUE constraint failed: " ++ named := hmessage
      simpa using congrArg String.toList hmessage
    next =>
      obtain ⟨g, hfound, _⟩ := Option.map_eq_some_iff.mp h
      have hany := List.find?_some hfound
      replace hany : stored.any (fun s => g.all fun c => (r.get c).same (s.get c)) = true := hany
      have hgroups : g ∈ (identities m).map fun columns => columns.map (·.name) := by
        simpa [identities, Model.keys] using List.mem_of_find?_eq_some hfound
      obtain ⟨columns, hcolumns, rfl⟩ := List.mem_map.mp hgroups
      obtain ⟨other, hother, hall⟩ := List.any_eq_true.mp hany
      refine ⟨columns, hcolumns, other, hother, List.all_eq_true.mpr fun column hcolumn => ?_⟩
      exact List.all_eq_true.mp hall _ (List.mem_map_of_mem hcolumn)

theorem key_integer (h : Database.violation? m stored r = none) (hnumbered : m.isNumbered = true) :
    ∀ cell ∈ r.key m, ∃ n, cell = .integer n := by
  intro cell hcell
  unfold Database.violation? at h
  dsimp only at h
  split at h
  · cases h
  next hkey =>
    rw [hnumbered, Bool.true_and, Bool.not_eq_true, List.any_eq_false] at hkey
    have hcell := hkey cell hcell
    cases cell with
    | integer n => exact ⟨n, rfl⟩
    | _ => exact absurd rfl hcell

/-! ## Numbers -/

theorem keyColumn_of_numbered (h : m.isNumbered = true) : ∃ key, m.keyColumns = [key] := by
  unfold Model.isNumbered at h
  split at h
  next key hkey => exact ⟨key, hkey⟩
  next => cases h

/-- The keys of the rows are integers. -/
def Numbered (m : Model) (stored : List Row) : Prop := ∀ r ∈ stored, ∃ n, r.key m = [.integer n]

/-- Among more numbers than are taken, one is free. -/
theorem exists_free (taken : List Int) :
    ∃ n ∈ (List.range (taken.length + 1)).map (fun k => Int.ofNat k + 1), n ∉ taken := by
  by_contra hnone
  push Not at hnone
  have hnodup : ((List.range (taken.length + 1)).map fun k => Int.ofNat k + 1).Nodup :=
    List.nodup_range.map fun _ _ h => by simpa using h
  have hlength := (hnodup.subperm hnone).length_le
  simp at hlength

/-- As long as there is room, the next number is none of those that are taken. -/
theorem nextNumber_fresh (hroom : stored.length < ColumnKind.greatestInteger.toNat) :
    ∀ r ∈ stored, r.key m ≠ [.integer (Database.nextNumber m stored)] := by
  intro r hr hkey
  generalize hnext : Database.nextNumber m stored = n at hkey
  unfold Database.nextNumber at hnext
  dsimp only at hnext
  generalize htaken : List.filterMap _ stored = taken at hnext
  have hin : n ∈ taken := by
    rw [← htaken]
    exact List.mem_filterMap.mpr ⟨r, hr, by rw [hkey]⟩
  have hlength : taken.length ≤ stored.length := htaken ▸ List.length_filterMap_le ..
  split at hnext
  next hmax =>
    rw [List.max?_eq_none_iff] at hmax
    rw [hmax] at hin
    cases hin
  next greatest hmax =>
    split at hnext
    next =>
      have hle := (List.max?_eq_some_iff.mp hmax).2 n hin
      omega
    next =>
      obtain ⟨k, hk, hfree⟩ := exists_free taken
      have hsmall : k ≤ ColumnKind.greatestInteger := by
        obtain ⟨i, hi, rfl⟩ := List.mem_map.mp hk
        have hi := List.mem_range.mp hi
        simp only [Int.ofNat_eq_natCast]
        omega
      let isFree : Int → Bool := fun k => k ≤ ColumnKind.greatestInteger && !taken.contains k
      have hsome : (((List.range (taken.length + 1)).map fun k => Int.ofNat k + 1).find? isFree).isSome = true :=
        List.find?_isSome.mpr ⟨k, hk, by simp [isFree, hsmall, hfree]⟩
      obtain ⟨found, hfound⟩ := Option.isSome_iff_exists.mp hsome
      rw [hfound, Option.getD_some] at hnext
      have htest := List.find?_some hfound
      simp [isFree, hnext, hin] at htest

/-! ## Rows that come next -/

/-- The row leaves its number open. -/
def LeavesNumber (m : Model) (row : Object) : Prop := ∀ column ∈ m.keyColumns, givenCells row column = .null

instance (m : Model) (row : Object) : Decidable (LeavesNumber m row) :=
  inferInstanceAs (Decidable (∀ column ∈ m.keyColumns, givenCells row column = .null))

/-- The rows can be added to those that are stored, one after the other. -/
structure Admits (m : Model) (stored : List Row) (rows : List Object) : Prop where
  apart : ∀ row ∈ rows, ∀ columns ∈ identities m, ∀ r ∈ stored, shares columns (givenCells row) r.cells = false
  distinct : rows.Pairwise fun first later =>
    ∀ columns ∈ identities m, shares columns (givenCells later) (givenCells first) = false
  numbered : m.isNumbered = true → Numbered m stored
  last : m.isNumbered = true → rows.Pairwise fun first later => LeavesNumber m first → LeavesNumber m later
  room : stored.length + rows.length ≤ ColumnKind.greatestInteger.toNat

/-- A table row has the cells that are given for its identities. -/
def MadeOf (m : Model) (row : Object) (r : Row) : Prop :=
  ∀ columns ∈ identities m, ∀ column ∈ columns, r.cells column = givenCells row column

theorem shares_congr {own own' other : Cells} (h : ∀ column ∈ columns, own column = own' column) :
    shares columns own other = shares columns own' other ∧ shares columns other own = shares columns other own' := by
  constructor <;> rw [Bool.eq_iff_iff, shares, shares, List.all_eq_true, List.all_eq_true] <;>
    exact forall₂_congr fun column hcolumn => by rw [h column hcolumn]

/-- What an identity of the row has in the table: the cells that were given, or a number that is new. -/
theorem numbered_cells (h : Admits m stored (row :: rows)) (hnames : (m.columns.map (·.name)).Nodup)
    (hmade : MadeOf m row r) (hcolumns : columns ∈ identities m) :
    (∀ column ∈ columns, (Database.numbered m stored r).cells column = givenCells row column) ∨
      m.isNumbered = true ∧ LeavesNumber m row ∧ ∃ column ∈ columns, m.keyColumns = [column] ∧
        ∀ other ∈ stored, ((Database.numbered m stored r).get column.name).same (other.get column.name) = false := by
  -- A number is assigned only where the single key column is empty, so that it meets identities of that column alone.
  by_cases hopen : m.isNumbered = true ∧ (r.key m).all Cell.isNull = true
  · obtain ⟨hnumbered, hnull⟩ := hopen
    obtain ⟨key, hkey⟩ := keyColumn_of_numbered hnumbered
    have hset : Database.numbered m stored r =
        r.set key.name (.integer (Database.nextNumber m stored)) := by
      rw [Database.numbered, hnumbered, hnull, Bool.true_and, if_pos rfl, Model.keys, hkey]
      rfl
    by_cases hin : key ∈ columns
    · refine .inr ⟨hnumbered, fun column hcolumn => ?_, key, hin, hkey, fun other hother => ?_⟩
      · rw [hkey, List.mem_singleton] at hcolumn
        subst hcolumn
        rw [← hmade columns hcolumns column hin]
        have hcell := List.all_eq_true.mp hnull (r.get column.name) (by simp [Row.key, Model.keys, hkey])
        rw [Row.cells]
        cases hget : r.get column.name with
        | null => rfl
        | _ => rw [hget] at hcell; cases hcell
      · obtain ⟨n, hn⟩ := h.numbered hnumbered other hother
        have hget : other.get key.name = .integer n := by simpa [Row.key, Model.keys, hkey] using hn
        rw [hset, hget, Bool.eq_false_iff]
        intro hsame
        have hnext : (r.set key.name (.integer (Database.nextNumber m stored))).get key.name =
            .integer (Database.nextNumber m stored) ∨
            (r.set key.name (.integer (Database.nextNumber m stored))).get key.name = .null := Row.get_set_self
        rcases hnext with hself | hself <;> rw [hself] at hsame
        · have hroom : stored.length < ColumnKind.greatestInteger.toNat := by
            have hroom := h.room
            rw [List.length_cons] at hroom
            omega
          exact nextNumber_fresh hroom other hother (by rw [hn, Cell.same_integer_iff.mp hsame])
        · cases hsame
    · refine .inl fun column hcolumn => ?_
      have hne : column.name ≠ key.name := by
        intro hname
        have hmem : key ∈ m.columns := (List.mem_filter.mp (hkey ▸ List.mem_singleton_self key)).1
        exact hin (List.inj_on_of_nodup_map hnames (mem_identities hcolumns column hcolumn) hmem hname ▸ hcolumn)
      rw [hset, Row.cells, Row.get_set_of_ne hne]
      exact hmade columns hcolumns column hcolumn
  · refine .inl fun column hcolumn => ?_
    rw [Database.numbered, if_neg (by rwa [Bool.and_eq_true])]
    exact hmade columns hcolumns column hcolumn

/-- To insert the row of the first of the rows breaks no constraint of uniqueness, and then the others can be
added. -/
theorem Admits.insert {db : Database} (h : Admits m (db.rowsOf m.name) (row :: rows))
    (hnames : (m.columns.map (·.name)).Nodup) (hmade : MadeOf m row r) :
    match db.insert m r with
    | .ok (_, db') => Admits m (db'.rowsOf m.name) rows
    | .error failure => ¬ failure.OfUniqueness := by
  have hcells {columns : List Column} (hcolumns : columns ∈ identities m) := numbered_cells h hnames hmade hcolumns
  rw [Database.insert]
  cases hviolation : Database.violation? m (db.rowsOf m.name) (Database.numbered m (db.rowsOf m.name) r) with
  | some e =>
      intro he
      obtain ⟨columns, hcolumns, other, hother, hshares⟩ := shares_of_violation hviolation he
      rcases hcells hcolumns with hgiven | ⟨_, _, column, hcolumn, _, hfresh⟩
      · rw [(shares_congr hgiven).1, h.apart row List.mem_cons_self columns hcolumns other hother] at hshares
        cases hshares
      · have hsame := List.all_eq_true.mp hshares column hcolumn
        rw [Row.cells, Row.cells, hfresh other hother] at hsame
        cases hsame
  | none =>
      show Admits m _ rows
      rw [Database.rowsOf_setRows]
      -- Only the row that was added is new to the others: it has cells that they do not share, or a number, which
      -- they leave open as well.
      refine ⟨fun later hlater columns hcolumns other hother => ?_, h.distinct.of_cons, fun hn other hother => ?_,
        fun hn => (h.last hn).of_cons, ?_⟩
      · rcases List.mem_append.mp hother with hother | hother
        · exact h.apart later (List.mem_cons_of_mem _ hlater) columns hcolumns other hother
        rw [List.mem_singleton.mp hother]
        rcases hcells hcolumns with hgiven | ⟨hn, hopen, column, hcolumn, hkey, _⟩
        · rw [(shares_congr hgiven).2]
          exact List.rel_of_pairwise_cons h.distinct hlater columns hcolumns
        · have hleaves : LeavesNumber m later := List.rel_of_pairwise_cons (h.last hn) hlater hopen
          have hnull := hleaves column (hkey ▸ List.mem_singleton_self column)
          refine List.all_eq_false.mpr ⟨column, hcolumn, ?_⟩
          rw [hnull]
          exact Bool.false_ne_true
      · rcases List.mem_append.mp hother with hother | hother
        · exact h.numbered hn other hother
        rw [List.mem_singleton.mp hother]
        have hinteger := key_integer hviolation hn
        obtain ⟨key, hkey⟩ := keyColumn_of_numbered hn
        rw [Row.key, Model.keys, hkey] at hinteger ⊢
        obtain ⟨n, hn⟩ := hinteger _ List.mem_cons_self
        exact ⟨n, by rw [List.map_cons, List.map_cons, List.map_nil, List.map_nil, hn]⟩
      · have hroom := h.room
        rw [List.length_cons] at hroom
        rw [List.length_append, List.length_singleton]
        omega

end Catalog

end RecordGraph
