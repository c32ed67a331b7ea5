import RecordGraph.Mutation.Create
import RecordGraph.Mutation.Update
import RecordGraph.Proofs.Schema.Names

/-!
# Steps on members

A body is worked out of an item in a loop over the members. What a step of such a loop does is told
here, once for each of the loops; what is kept of a body by all of them follows by the cases of a step.
-/

namespace RecordGraph

/-- Whether the value of a relation is to be turned into operations. -/
def Value.nests (v : Value) : Bool := v.isPresent && (v.isObject || v.isList)

theorem Value.ne_null_of_nests {v : Value} (h : v.nests = true) : v ≠ .null := by
  rintro rfl
  cases h

namespace Writer

/-- How far a body is worked out. -/
inductive BodyKind where
  /-- The values of relations are turned into operations. -/
  | prepared
  /-- Foreign keys stand under their relations, too. -/
  | created
  /-- Null foreign keys cut their relations. -/
  | changed
deriving DecidableEq

section
variable (w : Writer) (kind : BodyKind) (kept : Prop) (nest : Relation → Value → Value → Prop) (e : Entity)
  (key : String) (v : Value) (body : Object)

/-- A step on a member, by what its key stands for. -/
inductive Treats : Object → Prop
  | kept (h : kept) : Treats body
  | nested {r ops} (hr : e.relation? key = some r) (hv : v.nests = true) (hn : nest r v ops) :
      Treats (Object.set key ops body)
  /-- There is nothing to do for a relation, or for a null foreign key of a new record. -/
  | erased : Treats (Object.erase key body)
  | linked {r ops} (hk : kind ≠ .prepared) (hr : e.relationForField? key = some r) (hv : v ≠ .null)
      (hc : w.connect r v = .ok ops) : Treats (Object.set r.name ops (Object.erase key body))
  | cut {r} (hk : kind = .changed) (hr : e.relationForField? key = some r) :
      Treats (Object.set r.name (.object [("disconnect", .bool true)]) (Object.erase key body))

end

variable {w : Writer} {e : Entity} {entity path key : String} {r : Relation} {v ops : Value}
  {item body next out : Object}

/-! ## Created records -/

theorem createNested_nests {levels : Nat} (hv : v.isPresent = true)
    (h : w.createNested levels r v path = .ok ops) : v.nests = true := by
  rw [Value.nests, hv, Bool.true_and]
  cases levels with
  | zero => cases h
  | succ levels =>
      cases v with
      | list => rfl
      | object => rfl
      | _ =>
          obtain ⟨_, _, h⟩ := bind_ok_iff.mp h
          obtain ⟨_, _, h⟩ := bind_ok_iff.mp h
          cases h

theorem createMember_treats {nesting : Nesting} (h : w.createMember nesting e path body key = .ok next) :
    w.Treats .created (e.relationForField? key = none ∧ (e.relation? key = none ∨ (body.get key).nests = false))
      (fun r v ops => nesting r v (path ++ "." ++ key) = .ok ops) e key (body.get key) body next := by
  unfold createMember at h
  dsimp only at h
  split at h
  next r hr =>
    split at h
    next => exact pure_ok_iff.mp h ▸ .erased
    next hne =>
      obtain ⟨ops, hc, h⟩ := bind_ok_iff.mp h
      exact pure_ok_iff.mp h ▸ .linked (by decide) hr hne hc
  next hf =>
    split at h
    next r hr =>
      split at h
      next hv =>
        obtain ⟨ops, hops, h⟩ := bind_ok_iff.mp h
        exact pure_ok_iff.mp h ▸ .nested hr hv hops
      next hv => exact pure_ok_iff.mp h ▸ .kept ⟨hf, .inr (Bool.eq_false_iff.mpr hv)⟩
    next hr => exact pure_ok_iff.mp h ▸ .kept ⟨hf, .inl hr⟩

/-- Members of a record itself are told apart by their fields. -/
def KeptOnTop (e : Entity) (key : String) (v : Value) : Prop :=
  (e.IsScalar key ∧ e.relationForField? key = none) ∨
    (¬ e.IsScalar key ∧ (e.relation? key).isSome = true ∧ v.isPresent = false)

theorem createTopMember_treats (h : w.createTopMember e body key = .ok next) :
    e.Declares key ∧ w.Treats .created (KeptOnTop e key (body.get key))
      (fun r v ops => w.createNested w.levels r v key = .ok ops) e key (body.get key) body next := by
  unfold createTopMember at h
  dsimp only at h
  split at h
  next hfield =>
    have hrelation : ¬ e.IsScalar key := by rw [Entity.IsScalar, hfield]; exact Bool.noConfusion
    split at h
    next => cases h
    next r hr =>
      have hsome : (e.relation? key).isSome = true := by rw [hr]; rfl
      refine ⟨.inr hsome, ?_⟩
      split at h
      next hv =>
        obtain ⟨ops, hops, h⟩ := bind_ok_iff.mp h
        exact pure_ok_iff.mp h ▸ .nested hr (createNested_nests hv hops) hops
      next hv => exact pure_ok_iff.mp h ▸ .kept (.inr ⟨hrelation, hsome, Bool.eq_false_iff.mpr hv⟩)
  next hfield =>
    have hscalar : e.IsScalar key := Bool.eq_false_iff.mpr hfield
    refine ⟨hscalar.declares, ?_⟩
    split at h
    next hf => exact pure_ok_iff.mp h ▸ .kept (.inl ⟨hscalar, hf⟩)
    next r hr =>
      split at h
      next => exact pure_ok_iff.mp h ▸ .erased
      next hne =>
        obtain ⟨ops, hc, h⟩ := bind_ok_iff.mp h
        exact pure_ok_iff.mp h ▸ .linked (by decide) hr hne hc

/-! ## Updated records -/

theorem updateNested_nests {levels : Nat} {parent : Value} {out : Option Value} (hv : v.isPresent = true)
    (h : w.updateNested levels parent r v = .ok out) : v.nests = true := by
  rw [Value.nests, hv, Bool.true_and]
  cases levels with
  | zero => cases h
  | succ levels =>
      cases v with
      | list => rfl
      | object => rfl
      | _ =>
          obtain ⟨_, _, h⟩ := bind_ok_iff.mp h
          obtain ⟨_, _, h⟩ := bind_ok_iff.mp h
          cases h

theorem updateItem_treats {nesting : UpdateNesting} (he : w.view.schema.entity entity = .ok e)
    (h : w.updateItem nesting entity item = .ok out) :
    ∃ f : Object → String × Value → Except Failure Object, item.foldlM f item = .ok out ∧
      ∀ kv body next, f body kv = .ok next →
        w.Treats .prepared (e.relation? kv.1 = none ∨ kv.2.nests = false)
          (fun r v ops => nesting r v = .ok (some ops)) e kv.1 kv.2 body next := by
  obtain ⟨e', he', h⟩ := bind_ok_iff.mp h
  cases he.symm.trans he'
  refine ⟨_, h, fun (key, v) body next h => ?_⟩
  dsimp only at h ⊢
  split at h
  next hr => exact pure_ok_iff.mp h ▸ .kept (.inl hr)
  next r hr =>
    split at h
    next hv =>
      obtain ⟨ops, hops, h⟩ := bind_ok_iff.mp h
      cases ops with
      | none => exact pure_ok_iff.mp h ▸ .erased
      | some ops => exact pure_ok_iff.mp h ▸ .nested hr hv hops
    next hv => exact pure_ok_iff.mp h ▸ .kept (.inr (Bool.eq_false_iff.mpr hv))

theorem linkForeignKeys_treats {updating : Bool} (he : w.view.schema.entity entity = .ok e)
    (h : w.linkForeignKeys entity updating item = .ok out) :
    ∃ f : Object → String × Value → Except Failure Object, item.foldlM f item = .ok out ∧
      ∀ kv body next, f body kv = .ok next →
        w.Treats (if updating then .changed else .created) (e.relationForField? kv.1 = none)
          (fun _ _ _ => False) e kv.1 kv.2 body next := by
  obtain ⟨e', he', h⟩ := bind_ok_iff.mp h
  cases he.symm.trans he'
  refine ⟨_, h, fun (key, v) body next h => ?_⟩
  dsimp only at h ⊢
  split at h
  next hf => exact pure_ok_iff.mp h ▸ .kept hf
  next r hr =>
    split at h
    · split at h
      next hu => exact pure_ok_iff.mp h ▸ .cut (by rw [if_pos hu]) hr
      next => exact pure_ok_iff.mp h ▸ .erased
    next v hne =>
      obtain ⟨ops, hc, h⟩ := bind_ok_iff.mp h
      exact pure_ok_iff.mp h ▸ .linked (by cases updating <;> decide) hr hne hc

theorem updateTopMember_treats {id : Value} (h : w.updateTopMember e id body key = .ok next) :
    e.Declares key ∧ w.Treats .changed (KeptOnTop e key (body.get key))
      (fun r v ops => w.updateNested w.levels id r v = .ok (some ops)) e key (body.get key) body next := by
  unfold updateTopMember at h
  dsimp only at h
  split at h
  next hfield =>
    have hrelation : ¬ e.IsScalar key := by rw [Entity.IsScalar, hfield]; exact Bool.noConfusion
    split at h
    next => cases h
    next r hr =>
      have hsome : (e.relation? key).isSome = true := by rw [hr]; rfl
      refine ⟨.inr hsome, ?_⟩
      split at h
      next hv =>
        obtain ⟨ops, hops, h⟩ := bind_ok_iff.mp h
        cases ops with
        | none => exact pure_ok_iff.mp h ▸ .erased
        | some ops => exact pure_ok_iff.mp h ▸ .nested hr (updateNested_nests hv hops) hops
      next hv => exact pure_ok_iff.mp h ▸ .kept (.inr ⟨hrelation, hsome, Bool.eq_false_iff.mpr hv⟩)
  next hfield =>
    have hscalar : e.IsScalar key := Bool.eq_false_iff.mpr hfield
    refine ⟨hscalar.declares, ?_⟩
    split at h
    next hf => exact pure_ok_iff.mp h ▸ .kept (.inl ⟨hscalar, hf⟩)
    next r hr =>
      split at h
      next => exact pure_ok_iff.mp h ▸ .cut rfl hr
      next hne =>
        obtain ⟨ops, hc, h⟩ := bind_ok_iff.mp h
        exact pure_ok_iff.mp h ▸ .linked (by decide) hr hne hc

end Writer

end RecordGraph
