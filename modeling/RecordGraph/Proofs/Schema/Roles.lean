import Mathlib.Data.List.Nodup
import RecordGraph.Proofs.Schema.Names

/-!
# What keys stand for

The key of a member stands for a relation, or for a field that holds the key of one, or for nothing but itself. Which of
the two comes first where a name is both depends on where the member stands.
-/

namespace RecordGraph

/-- What the key of a member stands for. -/
inductive Role where
  | plain
  | relation (r : Relation)
  /-- A field that holds, first of all, the key of a relation. -/
  | foreign (r : Relation)

theorem Role.not_foreign {role : Role} {r : Relation} (h : role = .relation r) (r' : Relation) :
    role ≠ .foreign r' := by
  rintro rfl
  cases h

namespace Entity

/-- Where only relations are told apart. -/
def relationRole (e : Entity) (key : String) : Role :=
  match e.relation? key with
  | some r => .relation r
  | none => .plain

/-- Where only foreign keys are told apart. -/
def foreignRole (e : Entity) (key : String) : Role :=
  match e.relationForField? key with
  | some r => .foreign r
  | none => .plain

/-- In the body of a nested new record a foreign key comes before a relation of its name. -/
def createRole (e : Entity) (key : String) : Role :=
  match e.relationForField? key with
  | some r => .foreign r
  | none => e.relationRole key

/-- In a record itself scalar fields are told apart from all others. -/
def topRole (e : Entity) (key : String) : Role :=
  if (e.field? key).all Field.isRelation then e.relationRole key else e.foreignRole key

/-- No relation that a field holds the key of goes by the name of the field that holds the key of another. -/
def Unchained (e : Entity) : Prop :=
  ∀ field r r', e.relationForField? field = some r → e.relationForField? r.name = some r' → r.name = field

variable {e : Entity} {key : String} {r : Relation}

/-- Where the fields that hold keys are scalars, it is enough that no scalar field goes by the name of a relation. -/
theorem Apart.unchained (h : e.Apart)
    (hheld : ∀ r ∈ e.relations, ∀ field, r.field? = some field → e.IsScalar field) : e.Unchained := by
  intro field r r' hr hr'
  have hfield : r'.field? = some r.name := by simpa using List.find?_some hr'
  have hnone := h.relation?_eq_none (hheld r' (List.mem_of_find?_eq_some hr') _ hfield)
  have hsome := relation?_of_foreign hr
  rw [hnone] at hsome
  cases hsome

theorem not_foreign_relationRole : e.relationRole key ≠ .foreign r := by
  unfold relationRole
  cases e.relation? key <;> simp

theorem not_relation_foreignRole : e.foreignRole key ≠ .relation r := by
  unfold foreignRole
  cases e.relationForField? key <;> simp

theorem foreign_foreignRole (h : e.foreignRole key = .foreign r) : e.relationForField? key = some r := by
  unfold foreignRole at h
  cases hr : e.relationForField? key with
  | none => rw [hr] at h; cases h
  | some r' => rw [hr] at h; cases h; rfl

theorem foreign_createRole (h : e.createRole key = .foreign r) : e.relationForField? key = some r := by
  unfold createRole at h
  cases hr : e.relationForField? key with
  | none => rw [hr] at h; exact absurd h not_foreign_relationRole
  | some r' => rw [hr] at h; cases h; rfl

theorem scalar_topRole (h : e.topRole key = .foreign r) : e.IsScalar key := by
  unfold topRole at h
  split at h
  · exact absurd h not_foreign_relationRole
  next hscalar => exact Bool.eq_false_iff.mpr hscalar

theorem foreign_topRole (h : e.topRole key = .foreign r) : e.relationForField? key = some r := by
  unfold topRole at h
  split at h
  · exact absurd h not_foreign_relationRole
  · exact foreign_foreignRole h

theorem relationRole_of_some (h : e.relation? key = some r) : e.relationRole key = .relation r := by
  rw [relationRole, h]

theorem relationRole_of_none (h : e.relation? key = none) : e.relationRole key = .plain := by
  rw [relationRole, h]

theorem foreignRole_of_some (h : e.relationForField? key = some r) : e.foreignRole key = .foreign r := by
  rw [foreignRole, h]

theorem foreignRole_of_none (h : e.relationForField? key = none) : e.foreignRole key = .plain := by
  rw [foreignRole, h]

theorem createRole_of_some (h : e.relationForField? key = some r) : e.createRole key = .foreign r := by
  rw [createRole, h]

theorem createRole_of_none (h : e.relationForField? key = none) : e.createRole key = e.relationRole key := by
  rw [createRole, h]

theorem topRole_of_none (hr : e.relation? key = none) (hf : e.relationForField? key = none) :
    e.topRole key = .plain := by
  unfold topRole
  split
  · exact relationRole_of_none hr
  · exact foreignRole_of_none hf

theorem topRole_of_relation (ha : e.Apart) (hr : e.relation? key = some r) : e.topRole key = .relation r := by
  have hplain : (e.field? key).all Field.isRelation = true := by
    by_contra hscalar
    have hnone := ha.relation?_eq_none (Bool.eq_false_iff.mpr hscalar)
    rw [hr] at hnone
    cases hnone
  exact (if_pos hplain).trans (relationRole_of_some hr)

theorem topRole_of_foreign (hscalar : e.IsScalar key) (hf : e.relationForField? key = some r) :
    e.topRole key = .foreign r :=
  (if_neg (Bool.eq_false_iff.mp hscalar)).trans (foreignRole_of_some hf)

theorem ne_of_topRole (hr : e.relation? key = none) (field : String) (r : Relation)
    (hf : e.topRole field = .foreign r) : r.name ≠ key := by
  rintro rfl
  have hsome := relation?_of_foreign (foreign_topRole hf)
  rw [hr] at hsome
  cases hsome

end Entity

/-- No relation that a foreign key stands for is called as another foreign key, or as another relation that one stands
for. -/
structure Role.Apart (role : String → Role) : Prop where
  named : ∀ {field r r'}, role field = .foreign r → role r.name = .foreign r' → r.name = field
  single : ∀ {field field' r r'}, role field = .foreign r → role field' = .foreign r' → r.name = r'.name →
    field = field'

theorem Entity.relationRole_apart {e : Entity} : Role.Apart e.relationRole :=
  ⟨fun h => absurd h not_foreign_relationRole, fun h => absurd h not_foreign_relationRole⟩

section
variable {e : Entity} (hs : (e.relations.map (·.name)).Nodup)
include hs

theorem Entity.foreign_single {field field' : String} {r r' : Relation} (hr : e.relationForField? field = some r)
    (hr' : e.relationForField? field' = some r') (hname : r.name = r'.name) : field = field' := by
  obtain rfl := List.inj_on_of_nodup_map hs (List.mem_of_find?_eq_some hr) (List.mem_of_find?_eq_some hr') hname
  have hfield : r.field? = some field := by simpa using List.find?_some hr
  have hfield' : r.field? = some field' := by simpa using List.find?_some hr'
  exact Option.some.inj (hfield.symm.trans hfield')

theorem Entity.roles_apart (hu : e.Unchained) {role : String → Role}
    (hrole : ∀ {key r}, role key = .foreign r → e.relationForField? key = some r) : Role.Apart role where
  named h h' := hu _ _ _ (hrole h) (hrole h')
  single h h' hname := foreign_single hs (hrole h) (hrole h') hname

/-- In a record itself it is enough that no scalar field goes by the name of a relation. -/
theorem Entity.topRole_apart (ha : e.Apart) : Role.Apart e.topRole where
  named h h' := by
    have hsome := Entity.relation?_of_foreign (foreign_topRole h)
    rw [ha.relation?_eq_none (scalar_topRole h')] at hsome
    cases hsome
  single h h' hname := foreign_single hs (foreign_topRole h) (foreign_topRole h') hname

end

end RecordGraph
