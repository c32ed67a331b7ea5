import RecordGraph.Proofs.Query.Shown
import RecordGraph.Proofs.Relational.Finding

/-!
# Single records

What a look-up of one record finds: the first row that satisfies the filter, in the shape of the
plan. Its record has the columns that the shape shows as the row has them, and no other.
-/

namespace RecordGraph

namespace Sorting

theorem sort_unordered {db : Database} {rows : List Row} : ({} : Sorting).sort db rows = rows := by
  rw [sort]
  refine (congrArg _ (List.mergeSort_of_pairwise (List.pairwise_of_forall fun _ _ => rfl))).trans ?_
  rw [List.foldl_nil, List.filterMap_map]
  exact List.filterMap_some

end Sorting

namespace Row

variable {m : Model} {row : Row} {name : String}

theorem get?_values (h : name ∈ m.columns.map (·.name)) :
    ∃ kind : ColumnKind, Object.get? name (row.values m) = some (kind.read (row.get name)) := by
  unfold values
  generalize m.columns = columns at h
  induction columns with
  | nil => cases h
  | cons column rest ih =>
      by_cases hn : column.name = name
      · exact ⟨column.kind, by simp [Object.get?, hn]⟩
      · have hrest := (List.mem_cons.mp h).resolve_left fun he => hn he.symm
        obtain ⟨kind, hk⟩ := ih hrest
        exact ⟨kind, by simpa [Object.get?, hn] using hk⟩

theorem read_ne_null {kind : ColumnKind} {cell : Cell} (h : cell.isNull = false) :
    (kind.read cell).isNull = false := by
  cases cell with
  | null => cases h
  | text s =>
      cases kind with
      | date => cases hd : Date.read? s.toList <;> simp [ColumnKind.read, hd, Value.isNull]
      | datetime => cases hd : DateTime.read? s.toList <;> simp [ColumnKind.read, hd, Value.isNull]
      | _ => rfl
  | integer | real => cases kind <;> rfl

end Row

namespace Catalog

variable {c : Catalog} {m : Model} {db db' : Database} {entity name : String} {p : Plan} {found : Option Object}

/-! ## The row that is found -/

/-- The first of the rows that satisfy a filter. -/
def firstRow (c : Catalog) (db : Database) (m : Model) (filter : Object) : Except Failure (Option Row) := do
  let condition ← c.condition m (.object filter)
  condition.bind
  return (db.select m condition).head?

theorem firstRow_some {filter : Object} {row : Row} (h : c.firstRow db m filter = .ok (some row)) :
    row ∈ db.rows m ∧ c.Satisfies m db row (.object filter) := by
  obtain ⟨condition, hcond, h⟩ := bind_ok_iff.mp h
  obtain ⟨_, _, h⟩ := bind_ok_iff.mp h
  obtain ⟨hrow, hsel⟩ := List.mem_filter.mp (List.mem_of_head? (pure_ok_iff.mp h))
  exact ⟨hrow, condition, hcond, hsel⟩

theorem firstRow_none {filter : Object} (h : c.firstRow db m filter = .ok none) :
    ∀ row ∈ db.rows m, ¬ c.Satisfies m db row (.object filter) := by
  obtain ⟨cond, hcond, h⟩ := bind_ok_iff.mp h
  obtain ⟨_, _, h⟩ := bind_ok_iff.mp h
  rintro row hrow ⟨_, hcond', hsel⟩
  rw [hcond] at hcond'
  cases hcond'
  have hin : row ∈ db.select m cond := List.mem_filter.mpr ⟨hrow, hsel⟩
  rw [List.head?_eq_none_iff.mp (pure_ok_iff.mp h)] at hin
  cases hin

/-- What is found for a plan without an order: the first row of those that satisfy the filter. -/
theorem findUnique_ok (h : (c.findUnique entity p).runOn db = (.ok found, db')) (hp : p.order = none) :
    ∃ m first, c.model? entity = some m ∧ c.firstRow db m p.filter = .ok first ∧
      match first with
      | none => found = none
      | some row => ∃ record, found = some record ∧
          c.record db p.levels m p.loads p.shape row = .ok record := by
  simp only [findUnique, chosen, hp, Option.getD_none, bind_assoc, Act.runOn_bind_ok_iff,
    Act.runOn_liftM_ok_iff, Act.runOn_get_ok_iff] at h
  obtain ⟨m, _, ⟨hm, rfl⟩, cond, _, ⟨hcond, rfl⟩, sorting, _, ⟨hsort, rfl⟩, _, _, ⟨_, rfl⟩, _, _, ⟨hbind, rfl⟩,
    _, _, ⟨_, rfl⟩, _, _, ⟨rfl, rfl⟩, rows, _, hrows, h⟩ := h
  cases hsort
  rw [Sorting.sort_unordered, Act.runOn_pure_ok_iff] at hrows
  obtain ⟨rfl, rfl⟩ := hrows
  refine ⟨m, _, model_ok_iff.mp hm, bind_ok_iff.mpr ⟨cond, hcond, bind_ok_iff.mpr ⟨_, hbind, rfl⟩⟩, ?_⟩
  cases hrows : Database.select _ m cond with
  | nil =>
      rw [hrows] at h
      cases h
      rfl
  | cons row rest =>
      rw [hrows] at h
      simp only [shown, map_eq_pure_bind, bind_assoc, Act.runOn_bind_ok_iff, Act.runOn_get_ok_iff,
        Act.runOn_liftM_ok_iff, Act.runOn_pure_ok_iff] at h
      obtain ⟨_, _, ⟨rfl, rfl⟩, record, _, ⟨hrecord, rfl⟩, rfl, _⟩ := h
      exact ⟨record, rfl, hrecord⟩

/-- Nothing is found if no row satisfies the filter, and otherwise the record of one that does. -/
theorem findUnique_cases (hm : c.model? entity = some m)
    (h : (c.findUnique entity p).runOn db = (.ok found, db')) (hp : p.order = none) :
    (found = none ∧ ∀ row ∈ db.rows m, ¬ c.Satisfies m db row (.object p.filter)) ∨
    ∃ row ∈ db.rows m, c.Satisfies m db row (.object p.filter) ∧
      ∃ record, found = some record ∧ c.record db p.levels m p.loads p.shape row = .ok record := by
  obtain ⟨m', first, hm', hfirst, hfound⟩ := findUnique_ok h hp
  rw [hm] at hm'
  cases hm'
  cases first with
  | none => exact .inl ⟨hfound, firstRow_none hfirst⟩
  | some row =>
      obtain ⟨hrow, hsat⟩ := firstRow_some hfirst
      exact .inr ⟨row, hrow, hsat, hfound⟩

/-! ## Columns of records -/

theorem related_column {levels : Nat} {loads included related : Object} {row : Row}
    (hl : m.link? name = none)
    (h : included.filterMapM (c.relatedMember db levels m loads row fun _ => none) = .ok related) :
    Object.get? name related = none := by
  rw [Object.get?_eq_none_iff]
  intro hin
  obtain ⟨kv, hkv, rfl⟩ := List.mem_map.mp hin
  obtain ⟨⟨key, entry⟩, _, hmember⟩ := mem_of_filterMapM_ok h hkv
  obtain ⟨_, hmember⟩ := relatedMember_some_iff.mp hmember
  split at hmember
  · rename_i l hlink
    obtain ⟨x, _, rfl⟩ := hmember
    rw [hl] at hlink
    cases hlink
  · cases hmember

/-- A column that is selected is shown as the row has it. -/
theorem selected_column {levels : Nat} {loads tree record : Object} {row : Row} (hl : m.link? name = none)
    (h : tree.filterMapM (c.relatedMember db levels m loads row fun name =>
      (Object.get? name (row.values m)).map (name, ·)) = .ok record) :
    ((∃ entry, (name, entry) ∈ tree ∧ entry.isPresent = true) →
      Object.get? name record = Object.get? name (row.values m)) ∧
    ((¬ ∃ entry, (name, entry) ∈ tree ∧ entry.isPresent = true) → Object.get? name record = none) := by
  have hmember {x : Value} (hx : (name, x) ∈ record) :
      (∃ entry, (name, entry) ∈ tree ∧ entry.isPresent = true) ∧ Object.get? name (row.values m) = some x := by
    obtain ⟨⟨key, entry⟩, hin, hmember⟩ := mem_of_filterMapM_ok h hx
    obtain ⟨hpresent, hmember⟩ := relatedMember_some_iff.mp hmember
    split at hmember
    · rename_i l hlink
      obtain ⟨y, _, he⟩ := hmember
      cases he
      rw [hl] at hlink
      cases hlink
    · obtain ⟨y, hy, he⟩ := Option.map_eq_some_iff.mp hmember
      cases he
      exact ⟨⟨entry, hin, hpresent⟩, hy⟩
  constructor
  · rintro ⟨entry, hin, hpresent⟩
    refine Object.get?_eq_of_members (fun x hx => (hmember hx).2) fun x hx => ?_
    obtain ⟨o, ho, hall⟩ := filterMapM_ok_mem h hin
    rw [relatedMember_some_iff.mpr ⟨hpresent, by simp only [hl, hx]; rfl⟩] at ho
    exact hall _ (Except.ok.inj ho).symm
  · intro hno
    exact Object.get?_eq_of_members (fun x hx => absurd (hmember hx).1 hno) nofun

/-- A record has a column that its shape shows as the row has it, and no other. -/
theorem record_column {levels : Nat} {loads shape record : Object} {row : Row} (hl : m.link? name = none)
    (h : c.record db (levels + 1) m loads shape row = .ok record) :
    (Shape.Shows shape name → Object.get? name record = Object.get? name (row.values m)) ∧
    (¬ Shape.Shows shape name → Object.get? name record = none) := by
  rw [record_succ] at h
  unfold Shape.Shows
  split at h
  · rename_i hsel
    simp only [bind_ok_iff, pure_ok_iff] at h
    obtain ⟨omitted, homitted, included, _, related, hrelated, rfl⟩ := h
    have hnone := related_column hl hrelated
    simp only [hsel, Object.get?_append, hnone, Option.or_none]
    have hiff : (∀ o, Object.get shape "omit" = .object o → (Object.get o name).isPresent = false) ↔
        (Object.get omitted name).isPresent = false := by
      rw [Shape.part] at homitted
      cases hget : Object.get shape "omit" with
      | object o =>
          rw [hget] at homitted
          cases homitted
          simp
      | _ =>
          rw [hget] at homitted
          dsimp only at homitted
          split at homitted
          · cases homitted
          · cases homitted
            simp [Object.get, Object.get?, Value.isPresent]
    rw [hiff]
    constructor
    · intro hno
      exact Object.get?_filter (fun k => !(Object.get omitted k).isPresent) (by rw [hno]; rfl)
    · intro hyes
      exact Object.get?_filter_of_not (fun k => !(Object.get omitted k).isPresent) (by simpa using hyes)
  · rename_i tree hsel
    simp only [hsel]
    exact selected_column hl h
  · cases h

end Catalog

end RecordGraph
