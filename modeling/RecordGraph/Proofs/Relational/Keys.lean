import Mathlib.Data.List.Nodup
import RecordGraph.Operation.Key
import RecordGraph.Proofs.Relational.Cells
import RecordGraph.Proofs.Relational.Meaning
import RecordGraph.Proofs.Value.Members

/-!
# Keys address rows

A table has no two rows of one key and no row without one. The condition that a record id stands for
says what every column of the key is, so at most one row satisfies it.
-/

namespace RecordGraph

/-- The engine keeps the keys of a table filled and distinct. -/
structure Database.Keyed (db : Database) (m : Model) : Prop where
  filled : ∀ row ∈ db.rowsOf m.name, ∀ k ∈ m.keys, (row.get k).isNull = false
  distinct : (db.rowsOf m.name).Pairwise fun row other => ¬ ∀ k ∈ m.keys, (row.get k).same (other.get k) = true

namespace Model

variable {m : Model} {name : String}

/-- The name under which a filter addresses the key of a model: its only column, or a name of its own
for a key of several columns. -/
structure AddressedBy (m : Model) (name : String) : Prop where
  plain : name ∉ ["AND", "OR", "NOT"]
  unlinked : m.link? name = none
  keys : m.keys = [name] ∨ 1 < m.keys.length ∧ m.column? name = none

/-- A value for the key as a whole. For a key of several columns it is an object with all of them. -/
def IsKey (m : Model) : Value → Prop
  | .object parts => 1 < m.keys.length ∧ ∀ k ∈ m.keys, k ∈ Object.keys parts
  | _ => m.keys.length = 1

theorem column?_name {column : Column} (h : m.column? name = some column) : column.name = name := by
  simpa using List.find?_some h

theorem column?_of_key (h : name ∈ m.keys) : ∃ column, m.column? name = some column := by
  obtain ⟨column, hc, rfl⟩ := List.mem_map.mp h
  have hsome : (m.column? column.name).isSome := by
    rw [Model.column?, List.find?_isSome]
    exact ⟨column, (List.mem_filter.mp hc).1, by simp⟩
  exact Option.isSome_iff_exists.mp hsome

theorem column?_of_mem {column : Column} (hnames : (m.columns.map (·.name)).Nodup) (hin : column ∈ m.columns) :
    m.column? column.name = some column := by
  have hsome : (m.column? column.name).isSome := by
    rw [Model.column?, List.find?_isSome]
    exact ⟨column, hin, by simp⟩
  obtain ⟨found, hfound⟩ := Option.isSome_iff_exists.mp hsome
  have hmem : found ∈ m.columns := List.mem_of_find?_eq_some hfound
  rw [hfound, List.inj_on_of_nodup_map hnames hmem hin (column?_name hfound)]

end Model

theorem Database.mem_rows {db : Database} {m : Model} {row : Row} :
    row ∈ db.rows m ↔ row ∈ db.rowsOf m.name := by
  simp [Database.rows]

theorem Database.Keyed.unique {db : Database} {m : Model} (h : db.Keyed m) {row other : Row}
    (hr : row ∈ db.rows m) (ho : other ∈ db.rows m)
    (hsame : ∀ k ∈ m.keys, (row.get k).same (other.get k) = true) : row = other := by
  rw [Database.mem_rows] at hr ho
  have hdistinct := h.distinct
  generalize db.rowsOf m.name = rows at hr ho hdistinct
  induction rows with
  | nil => cases hr
  | cons first rest ih =>
      obtain ⟨hfirst, hrest⟩ := List.pairwise_cons.mp hdistinct
      rcases List.mem_cons.mp hr with rfl | hrow <;> rcases List.mem_cons.mp ho with rfl | hother
      · rfl
      · exact absurd hsame (hfirst _ hother)
      · exact absurd (fun k hk => Cell.same_symm (hsame k hk)) (hfirst _ hrow)
      · exact ih hrow hother hrest

/-- A condition that is met by rows of one key only selects one row at most. -/
theorem Database.Keyed.select_single {db : Database} {m : Model} (h : db.Keyed m) {cond : Condition}
    (hfixed : ∀ row ∈ db.rows m, ∀ other ∈ db.rows m, cond.selects db row = true → cond.selects db other = true →
      ∀ k ∈ m.keys, (row.get k).same (other.get k) = true) : (db.select m cond).length ≤ 1 := by
  have hdistinct : (db.rows m).Pairwise fun row other => ¬ ∀ k ∈ m.keys, (row.get k).same (other.get k) = true :=
    (List.mergeSort_perm _ _).symm.pairwise h.distinct fun hne hsame =>
      hne fun k hk => Cell.same_symm (hsame k hk)
  have halone : (db.select m cond).Pairwise fun _ _ => False :=
    (hdistinct.filter _).imp_of_mem fun hr ho hne =>
      have hrow := List.mem_filter.mp hr
      have hother := List.mem_filter.mp ho
      hne (hfixed _ hrow.1 _ hother.1 hrow.2 hother.2)
  rcases hselect : db.select m cond with _ | ⟨row, _ | ⟨other, rest⟩⟩
  · exact Nat.zero_le 1
  · exact Nat.le_refl 1
  · rw [hselect] at halone
    exact absurd (List.rel_of_pairwise_cons halone List.mem_cons_self) id

theorem Database.Keyed.row?_key {db : Database} {m : Model} (h : db.Keyed m) {row : Row} (hr : row ∈ db.rows m) :
    db.row? m (row.key m) = some row := by
  cases hfound : db.row? m (row.key m) with
  | none =>
      rw [Database.row?, List.find?_eq_none] at hfound
      exact absurd (beq_self_eq_true _) (hfound row (Database.mem_rows.mp hr))
  | some other =>
      have hin : other ∈ db.rows m := Database.mem_rows.mpr (List.mem_of_find?_eq_some hfound)
      have hkey : other.key m = row.key m := by simpa using List.find?_some hfound
      refine congrArg some (h.unique hin hr fun k hk => ?_)
      rw [List.map_inj_left.mp hkey k hk]
      exact Cell.same_self (h.filled row (Database.mem_rows.mp hr) k hk)

/-! ## What a condition on the key fixes -/

theorem Comparison.equal_holds_iff {a b : Cell} : equal.eval a b = .holds ↔ a.same b = true := by
  unfold eval Cell.same
  cases a.isNull <;> cases b.isNull <;> simp [Truth.ofBool_holds_iff, admits]

/-- Rows whose column has one and the same value have equal cells there. -/
theorem Column.equalTo_fixes {column : Column} {v : Value} {cond : Condition} {db : Database}
    {row other : Row} (h : column.equalTo v = .ok cond) (hr : cond.selects db row = true)
    (ho : cond.selects db other = true) (hfilled : (row.get column.name).isNull = false) :
    (row.get column.name).same (other.get column.name) = true := by
  have hcompare {operand : Except Failure Cell}
      (hc : cond = .compare .equal column.name operand) :
      (row.get column.name).same (other.get column.name) = true := by
    subst hc
    have hr := Comparison.equal_holds_iff.mp (Condition.selects_iff.mp hr)
    have ho := Comparison.equal_holds_iff.mp (Condition.selects_iff.mp ho)
    exact Cell.same_trans hr (Cell.same_symm ho)
  unfold equalTo at h
  split at h
  · cases pure_ok_iff.mp h
    have hnull := Truth.ofBool_holds_iff.mp (Condition.selects_iff.mp hr)
    rw [hfilled] at hnull
    cases hnull
  · obtain ⟨w, _, h⟩ := bind_ok_iff.mp h
    cases w <;> exact hcompare (pure_ok_iff.mp h).symm

theorem Model.mem_of_mapM_some {α β : Type} {f : α → Option β} {xs : List α} {ys : List β}
    (h : xs.mapM f = some ys) {x : α} (hx : x ∈ xs) : ∃ y ∈ ys, f x = some y := by
  induction xs generalizing ys with
  | nil => cases hx
  | cons x' xs ih =>
      rw [List.mapM_cons] at h
      obtain ⟨y, hy, h⟩ := Option.bind_eq_some_iff.mp h
      obtain ⟨rest, hrest, h⟩ := Option.bind_eq_some_iff.mp h
      cases h
      rcases List.mem_cons.mp hx with rfl | hx
      · exact ⟨y, by simp, hy⟩
      · obtain ⟨y', hy', hf⟩ := ih hrest hx
        exact ⟨y', List.mem_cons_of_mem _ hy', hf⟩

theorem Model.compoundKey?_member {m : Model} {parts : Object} {members : List (Column × Value)}
    (h : m.compoundKey? (.object parts) = some members) {kv : String × Value} (hkv : kv ∈ parts) :
    ∃ column, m.column? kv.1 = some column ∧ (column, kv.2) ∈ members := by
  cases parts with
  | nil => cases hkv
  | cons first rest =>
      obtain ⟨_, hin, he⟩ := mem_of_mapM_some h hkv
      obtain ⟨column, hcol, rfl⟩ := Option.map_eq_some_iff.mp he
      exact ⟨column, hcol, hin⟩

/-- An object that names columns only is read as a whole key, member by member. -/
theorem Model.compoundKey?_some {m : Model} {parts : Object} (hne : parts ≠ [])
    (h : ∀ kv ∈ parts, ∃ column, m.column? kv.1 = some column) :
    ∃ members, m.compoundKey? (.object parts) = some members ∧ ∀ P : Column × Value → Prop,
      (∀ member ∈ members, P member) ↔ ∀ kv ∈ parts, ∃ column, m.column? kv.1 = some column ∧ P (column, kv.2) := by
  have hread : ∃ members, parts.mapM (fun kv => (m.column? kv.1).map (·, kv.2)) = some members ∧
      ∀ P : Column × Value → Prop, (∀ member ∈ members, P member) ↔
        ∀ kv ∈ parts, ∃ column, m.column? kv.1 = some column ∧ P (column, kv.2) := by
    clear hne
    induction parts with
    | nil => exact ⟨[], rfl, fun P => by simp⟩
    | cons kv rest ih =>
        obtain ⟨column, hcolumn⟩ := h kv List.mem_cons_self
        obtain ⟨members, hmembers, hall⟩ := ih fun kv' hkv' => h kv' (List.mem_cons_of_mem _ hkv')
        refine ⟨(column, kv.2) :: members, by rw [List.mapM_cons, hcolumn, hmembers]; rfl, fun P => ?_⟩
        rw [List.forall_mem_cons, List.forall_mem_cons, hall, hcolumn]
        simp only [Option.some.injEq, exists_eq_left']
  cases parts with
  | nil => exact absurd rfl hne
  | cons kv rest => exact hread

namespace Catalog

variable {c : Catalog} {m : Model} {db : Database} {row other : Row} {name : String} {v : Value}

/-- Two rows that satisfy a condition on the whole key have the same key. -/
theorem key_fixed (ha : m.AddressedBy name) (hv : m.IsKey v)
    (hfilled : ∀ k ∈ m.keys, (row.get k).isNull = false) (hr : c.SatisfiesMember m db row (name, v))
    (ho : c.SatisfiesMember m db other (name, v)) :
    ∀ k ∈ m.keys, (row.get k).same (other.get k) = true := by
  obtain ⟨cond, hcond, hr⟩ := hr
  obtain ⟨cond', hcond', ho⟩ := ho
  rw [hcond] at hcond'
  cases hcond'
  rw [memberCondition_name ha.plain, ha.unlinked] at hcond
  dsimp only [Model.cellCondition] at hcond
  rcases ha.keys with hkeys | ⟨hmany, hcolumn⟩
  · obtain ⟨column, hcolumn⟩ := Model.column?_of_key (show name ∈ m.keys by simp [hkeys])
    have hname := Model.column?_name hcolumn
    have hequal : column.equalTo v = .ok cond := by
      rw [hcolumn] at hcond
      cases v with
      | object parts => exact absurd hv.1 (by simp [hkeys])
      | _ => exact hcond
    simp only [hkeys, List.mem_singleton, forall_eq, ← hname] at hfilled ⊢
    exact Column.equalTo_fixes hequal hr ho hfilled
  · cases v with
    | object parts =>
        rw [hcolumn] at hcond
        cases hcompound : m.compoundKey? (.object parts) with
        | none => rw [hcompound] at hcond; cases hcond
        | some members =>
            rw [hcompound] at hcond
            obtain ⟨conds, hconds, rfl⟩ := map_ok_iff.mp hcond
            intro k hk
            obtain ⟨⟨_, x⟩, hx, he⟩ := List.mem_map.mp (hv.2 k hk)
            subst he
            obtain ⟨column, hcol, hin⟩ := Model.compoundKey?_member hcompound hx
            obtain ⟨cond, hc, hequal⟩ := forall₂_partner (mapM_ok_forall₂ hconds) hin
            have hname := Model.column?_name hcol
            subst hname
            exact Column.equalTo_fixes hequal (Condition.selects_all_iff.mp hr _ hc)
              (Condition.selects_all_iff.mp ho _ hc) (hfilled _ hk)
    | _ => exact absurd hv (by simp only [Model.IsKey]; omega)

/-- At most one row of a table satisfies a condition on the whole key. -/
theorem key_unique (hk : db.Keyed m) (ha : m.AddressedBy name) (hv : m.IsKey v) (hr : row ∈ db.rows m)
    (ho : other ∈ db.rows m) (hrow : c.Satisfies m db row (.object [(name, v)]))
    (hother : c.Satisfies m db other (.object [(name, v)])) : row = other := by
  have hmember {r : Row} (h : c.Satisfies m db r (.object [(name, v)])) :
      c.SatisfiesMember m db r (name, v) := satisfies_object_iff.mp h _ (List.mem_singleton.mpr rfl)
  exact hk.unique hr ho (key_fixed ha hv (hk.filled _ (Database.mem_rows.mp hr)) (hmember hrow)
    (hmember hother))

end Catalog

/-! ## Record ids -/

namespace Key

variable {s : Schema} {entity : String} {e : Entity} {m : Model} {id : Value} {condition : Object}

/-- The name under which a filter addresses the records of an entity. -/
def nameOf (e : Entity) : String := if e.isComposite then e.keyName else e.firstKey

/-- An id that leaves no part of the key open; a value or a text never does. -/
def Whole (m : Model) : Value → Prop
  | .object parts => m.IsKey (.object parts)
  | _ => True

theorem readPart_isKey (hone : m.keys.length = 1) {type part : String} {v : Value}
    (h : readPart type part = .ok v) : m.IsKey v := by
  unfold readPart at h
  dsimp only at h
  split at h
  · split at h
    · cases pure_ok_iff.mp h; exact hone
    · cases h
  · split at h
    · cases pure_ok_iff.mp h; exact hone
    · cases h
  · split at h
    · cases pure_ok_iff.mp h; exact hone
    · cases h
  · cases pure_ok_iff.mp h; exact hone
  · cases pure_ok_iff.mp h; exact hone

/-- The parts of a text with one part for each column name the columns and nothing else. -/
theorem readParts_keys {keys parts : List String} {types : String → String} {values : Object} {k : String}
    (hlen : ¬ parts.length ≠ keys.length)
    (h : (keys.zip parts).mapM (fun kp => do return (kp.1, ← readPart (types kp.1) kp.2)) = .ok values) :
    k ∈ Object.keys (Object.ofMembers values) ↔ k ∈ keys := by
  have hread : List.Forall₂ (fun kp kv : String × _ => kp.1 = kv.1) (keys.zip parts) values := by
    refine (mapM_ok_forall₂ h).imp fun kp kv hread => ?_
    obtain ⟨v, _, hread⟩ := bind_ok_iff.mp hread
    cases pure_ok_iff.mp hread
    rfl
  have hnames : (keys.zip parts).map Prod.fst = values.map Prod.fst := by
    rwa [← List.forall₂_eq_eq_eq, List.forall₂_map_left_iff, List.forall₂_map_right_iff]
  rw [List.map_fst_zip (by omega)] at hnames
  rw [Object.mem_keys_ofMembers, hnames]
  rfl

theorem whereId_single (h : whereId s entity id = .ok condition) : ∃ k v, condition = [(k, v)] := by
  obtain ⟨e, _, h⟩ := bind_ok_iff.mp h
  cases hc : e.isComposite with
  | false =>
      simp only [hc, Bool.not_false, ↓reduceIte] at h
      split at h
      · obtain ⟨v, _, h⟩ := bind_ok_iff.mp h
        exact ⟨_, v, (pure_ok_iff.mp h).symm⟩
      · exact ⟨_, _, (pure_ok_iff.mp h).symm⟩
  | true =>
      simp only [hc, Bool.not_true, Bool.false_eq_true, ↓reduceIte] at h
      split at h
      · exact ⟨_, _, (pure_ok_iff.mp h).symm⟩
      · split at h
        · cases h
        · split at h
          · cases h
          · obtain ⟨values, _, h⟩ := bind_ok_iff.mp h
            exact ⟨_, _, (pure_ok_iff.mp h).symm⟩
      · cases h

theorem UniqueKey.condition_single {key : UniqueKey} {payload : Object} :
    ∃ k v, key.condition payload = [(k, v)] := by
  cases key with
  | single field => exact ⟨_, _, rfl⟩
  | compound fields => exact ⟨_, _, rfl⟩

/-- The condition that a whole id stands for is one on the whole key. -/
theorem whereId_ok (he : s.entity entity = .ok e) (hkeys : e.keys = m.keys) (hne : m.keys ≠ [])
    (hw : Whole m id) (h : whereId s entity id = .ok condition) :
    ∃ v, condition = [(nameOf e, v)] ∧ m.IsKey v := by
  obtain ⟨e', he', h⟩ := bind_ok_iff.mp h
  rw [he] at he'
  cases he'
  cases hc : e.isComposite with
  | false =>
      have hone : m.keys.length = 1 := by
        have hlen : ¬ 1 < e.keys.length := by simpa [Entity.isComposite] using hc
        have hpos := List.length_pos_iff.mpr hne
        rw [hkeys] at hlen
        omega
      have hname : nameOf e = e.firstKey := by simp [nameOf, hc]
      simp only [hc, Bool.not_false, ↓reduceIte] at h
      rw [hname]
      split at h
      · obtain ⟨v, hv, h⟩ := bind_ok_iff.mp h
        exact ⟨v, (pure_ok_iff.mp h).symm, readPart_isKey hone hv⟩
      · refine ⟨id, (pure_ok_iff.mp h).symm, ?_⟩
        cases id with
        | object parts => exact hw
        | _ => exact hone
  | true =>
      have hname : nameOf e = e.keyName := by simp [nameOf, hc]
      have hmany : 1 < m.keys.length := by
        rw [← hkeys]
        simpa [Entity.isComposite] using hc
      simp only [hc, Bool.not_true, Bool.false_eq_true, ↓reduceIte] at h
      rw [hname]
      split at h
      · exact ⟨_, (pure_ok_iff.mp h).symm, hw⟩
      · split at h
        · cases h
        · split at h
          · cases h
          · rename_i parts hlen
            obtain ⟨values, hvalues, h⟩ := bind_ok_iff.mp h
            exact ⟨_, (pure_ok_iff.mp h).symm, hmany, fun k hk => (readParts_keys hlen hvalues).mpr (hkeys ▸ hk)⟩
      · cases h

end Key

end RecordGraph
