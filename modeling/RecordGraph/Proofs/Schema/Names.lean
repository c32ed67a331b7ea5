import RecordGraph.Proofs.Failure.Success
import RecordGraph.Schema.Basic

/-!
# Names in schemas

The relations of an entity are known by their names, and no scalar field goes by one of them. A key is
declared if it is that of a field or of a relation, and foreign if it is that of a scalar field that
stands for a relation.
-/

namespace RecordGraph.Entity

/-- A key is that of a scalar field or of a relation. -/
def Knows (e : Entity) (key : String) : Prop :=
  (e.field? key).all Field.isRelation = true → (e.relation? key).isSome = true

/-- A key is that of a field or the name of a relation. -/
def Declares (e : Entity) (key : String) : Prop :=
  e.hasField key = true ∨ (e.relation? key).isSome = true

/-- A key is that of a scalar field. -/
def IsScalar (e : Entity) (key : String) : Prop := (e.field? key).all Field.isRelation = false

instance (e : Entity) (key : String) : Decidable (e.IsScalar key) := inferInstanceAs (Decidable (_ = false))

/-- A key is that of a scalar which holds, first of all, the key of a relation. A name that a relation
goes by stands for that relation. -/
def IsForeign (e : Entity) (key : String) : Prop :=
  e.relation? key = none ∧ (e.relationForField? key).isSome = true

/-- No scalar field goes by the name of a relation. -/
def Apart (e : Entity) : Prop := ∀ f ∈ e.scalars, e.relation? f.name = none

instance : DecidablePred Apart := fun e => inferInstanceAs (Decidable (∀ f ∈ e.scalars, e.relation? f.name = none))

variable {e : Entity} {key : String}

theorem IsScalar.declares (h : e.IsScalar key) : e.Declares key := by
  rw [IsScalar, Option.all_eq_false] at h
  obtain ⟨f, hf, -⟩ := h
  exact .inl (by rw [hasField, hf]; rfl)

theorem Apart.relation?_eq_none (h : e.Apart) (hkey : e.IsScalar key) : e.relation? key = none := by
  rw [IsScalar, Option.all_eq_false] at hkey
  obtain ⟨f, hf, hscalar⟩ := hkey
  have hname : f.name = key := by simpa using List.find?_some hf
  exact hname ▸ h f (List.mem_filter.mpr ⟨List.mem_of_find?_eq_some hf, by simpa using hscalar⟩)

theorem relation?_of_foreign {r : Relation} (h : e.relationForField? key = some r) :
    (e.relation? r.name).isSome = true := by
  rw [relation?, List.find?_isSome]
  exact ⟨r, List.mem_of_find?_eq_some h, by simp⟩

theorem not_isForeign_of_relation (h : (e.relation? key).isSome = true) : ¬ e.IsForeign key := by
  rintro ⟨hnone, -⟩
  rw [hnone] at h
  cases h

theorem not_isForeign_of_none (h : e.relationForField? key = none) : ¬ e.IsForeign key := by
  rintro ⟨-, hsome⟩
  rw [h] at hsome
  cases hsome

end RecordGraph.Entity

namespace RecordGraph.Schema

variable {s : Schema} {entity name : String} {e : Entity}

/-- What all entities that are declared can be seen to have holds of those that are found. -/
theorem of_all {P : Entity → Prop} [DecidablePred P]
    (h : (s.entities.all fun kv => kv.2.toOption.all fun e => decide (P e)) = true) (he : s.entity name = .ok e) :
    P e := by
  unfold Schema.entity at he
  split at he
  · rename_i found hl
    obtain ⟨before, after, hm, _⟩ := List.lookup_eq_some_iff.mp hl
    have hfound := List.all_eq_true.mp h (name, found) (by simp [hm])
    subst he
    exact of_decide_eq_true hfound
  · cases he

theorem relation?_ok_iff {r : Option Relation} :
    s.relation? entity name = .ok r ↔ ∃ e, s.entity entity = .ok e ∧ e.relation? name = r := map_ok_iff

theorem relation?_of_entity (he : s.entity entity = .ok e) (name : String) :
    s.relation? entity name = .ok (e.relation? name) := by
  rw [Schema.relation?, he]; rfl

/-- The relations of every entity are known by their names. -/
def Distinct (s : Schema) : Prop :=
  ∀ name e, s.entity name = .ok e → (e.relations.map (·.name)).Nodup

theorem distinct_of_all (h : (s.entities.all fun kv => kv.2.toOption.all fun e =>
    decide (e.relations.map (·.name)).Nodup) = true) : s.Distinct := fun _ _ => of_all h

theorem Distinct.relation? (hs : s.Distinct) (he : s.entity name = .ok e) {r : Relation}
    (hr : r ∈ e.relations) : e.relation? r.name = some r := by
  have hn := hs _ _ he
  unfold Entity.relation?
  generalize e.relations = rs at hn hr
  induction rs with
  | nil => simp at hr
  | cons r' rs ih =>
      simp only [List.map_cons, List.nodup_cons, List.mem_map, not_exists, not_and] at hn
      rcases List.mem_cons.mp hr with rfl | hr
      · simp
      · have hne : r'.name ≠ r.name := fun h => hn.1 r hr h.symm
        simpa [hne] using ih hn.2 hr

/-- No scalar field of an entity has the name of a relation. -/
def ScalarsApart (s : Schema) : Prop :=
  ∀ name e, s.entity name = .ok e → ∀ f ∈ e.scalars, e.relation? f.name = none

theorem scalarsApart_of_all (h : (s.entities.all fun kv => kv.2.toOption.all fun e => decide e.Apart) = true) :
    s.ScalarsApart := fun _ _ he => (of_all h he : Entity.Apart _)

/-- Every relation of an entity leads to an entity that is declared. -/
def Linked (s : Schema) : Prop :=
  ∀ name e, s.entity name = .ok e → ∀ r ∈ e.relations, ∃ target, s.entity r.target = .ok target

theorem linked_of_all (h : (s.entities.all fun kv => kv.2.toOption.all fun e =>
    decide (∀ r ∈ e.relations, (s.entity r.target).isOk = true)) = true) : s.Linked := by
  intro name e he r hr
  have hok : (s.entity r.target).isOk = true := of_all h he r hr
  cases ht : s.entity r.target with
  | ok target => exact ⟨target, rfl⟩
  | error failure => rw [ht] at hok; cases hok

end RecordGraph.Schema
