import RecordGraph.Proofs.Mutation.Steps
import RecordGraph.Proofs.Value.Members

/-!
# Declared keys

Whichever way a body is worked out of an item, the loop over the members goes through all of them. A
step on a member lets its key pass only if it is declared, takes it away if it is a foreign key, and
adds at most the name of a relation. What comes out is closed under the entity.
-/

namespace RecordGraph

namespace Entity

/-- Every key of a body is declared, and none is a foreign key. -/
def Closed (e : Entity) (body : Object) : Prop :=
  ∀ key ∈ body.keys, e.Declares key ∧ ¬ e.IsForeign key

/-- What a step on a key does to the keys of a body. -/
structure Resolves (e : Entity) (key : String) (body next : Object) : Prop where
  declared : e.Declares key
  added : ∀ k ∈ next.keys, k ∈ body.keys ∨ (e.relation? k).isSome = true
  /-- As keys may repeat, a foreign key is taken away once for each time that it is met. -/
  taken : ∀ k, e.IsForeign k → next.keys.count k ≤ (body.keys.erase key).count k

variable {e : Entity} {key name : String} {v : Value} {item body next out : Object}

namespace Resolves

theorem same (hd : e.Declares key) (hk : ¬ e.IsForeign key) : e.Resolves key body body where
  declared := hd
  added _ hk := .inl hk
  taken k hf := by
    have hne : k ≠ key := fun he => hk (he ▸ hf)
    exact Nat.le_of_eq (List.count_erase_of_ne hne).symm

theorem erased (hd : e.Declares key) : e.Resolves key body (Object.erase key body) where
  declared := hd
  added k hk := by
    rw [Object.keys_erase] at hk
    exact .inl (List.mem_of_mem_erase hk)
  taken k _ := Nat.le_of_eq (congrArg (List.count k) (Object.keys_erase key body))

/-- The name of a relation is no foreign key itself. -/
theorem set (h : e.Resolves key body next) (hr : (e.relation? name).isSome = true) :
    e.Resolves key body (Object.set name v next) where
  declared := h.declared
  added k hk := by
    rcases Object.mem_keys_set.mp hk with rfl | hk
    · exact .inr hr
    · exact h.added k hk
  taken k hf := by
    have hne : k ≠ name := fun he => not_isForeign_of_relation hr (he ▸ hf)
    rw [Object.count_keys_set hne]
    exact h.taken k hf

end Resolves

/-- After steps on all keys the body is closed. Until then its keys are declared or still to come, and
a foreign key comes at least as often as it stands in the body. -/
theorem closed_of_steps {α : Type} (keyOf : α → String) {f : Object → α → Except Failure Object}
    {steps : List α} (hkeys : steps.map keyOf = item.keys)
    (hf : ∀ {a body next}, a ∈ steps → f body a = .ok next → e.Resolves (keyOf a) body next)
    (h : steps.foldlM f item = .ok out) : e.Closed out := by
  have hlast := foldlM_ok_invariant
    (I := fun rest body => (∀ k ∈ body.keys, k ∈ rest.map keyOf ∨ e.Declares k) ∧
      ∀ k, e.IsForeign k → body.keys.count k ≤ (rest.map keyOf).count k)
    (fun {a rest body next} hin hi hstep => ?_) ⟨fun k hk => ?_, fun k _ => ?_⟩ h
  · intro key hkey
    refine ⟨(hlast.1 key hkey).resolve_left List.not_mem_nil, fun hforeign => ?_⟩
    have hcount := List.count_pos_iff.mpr hkey
    exact absurd (hlast.2 key hforeign) (Nat.not_le.mpr hcount)
  · obtain ⟨hcome, hoften⟩ := hi
    have hs := hf hin hstep
    refine ⟨fun k hk => ?_, fun k hforeign => ?_⟩
    · rcases hs.added k hk with hk | hr
      · rcases hcome k hk with hk | hd
        · rcases List.mem_cons.mp hk with rfl | hk
          · exact .inr hs.declared
          · exact .inl hk
        · exact .inr hd
      · exact .inr (.inr hr)
    · have htaken := hs.taken k hforeign
      have hbody := hoften k hforeign
      rw [List.map_cons, List.count_cons] at hbody
      rw [List.count_erase] at htaken
      omega
  · exact .inl (hkeys ▸ hk)
  · exact Nat.le_of_eq (congrArg (List.count k) hkeys.symm)

end Entity

namespace Writer

variable (w : Writer)

/-- All keys of an item of an entity are declared. -/
def Declares (entity : String) (item : Object) : Prop :=
  ∃ e, w.view.schema.entity entity = .ok e ∧ ∀ key ∈ item.keys, e.Declares key

/-- A body of an entity is closed under the schema. -/
def Closed (entity : String) (body : Object) : Prop :=
  ∃ e, w.view.schema.entity entity = .ok e ∧ e.Closed body

variable {w} {kind : BodyKind} {kept : Prop} {nest : Relation → Value → Value → Prop} {e : Entity}
  {entity path key : String} {v : Value} {item body next out : Object}

theorem Declares.without {dropped : List String} (h : w.Declares entity item) :
    w.Declares entity (item.without dropped) := by
  obtain ⟨e, he, hall⟩ := h
  refine ⟨e, he, fun key hkey => hall key ?_⟩
  obtain ⟨kv, hkv, rfl⟩ := List.mem_map.mp hkey
  exact List.mem_map_of_mem (Object.mem_of_mem_without hkv)

/-- A checked item has no other keys than fields. -/
theorem checkedItem_declares {given : Value} (h : w.checkedItem entity path given = .ok item) :
    w.Declares entity item := by
  unfold checkedItem at h
  split at h
  next members =>
    obtain ⟨e, he, h⟩ := bind_ok_iff.mp h
    obtain ⟨_, hloop, h⟩ := bind_ok_iff.mp h
    obtain rfl := pure_ok_iff.mp h
    have hfields : ∀ kv ∈ members, e.hasField kv.1 = true := by
      refine forIn_ok_forall (fun {kv next} hstep => ?_) hloop
      obtain ⟨key, v⟩ := kv
      dsimp only at hstep
      split at hstep
      next => cases hstep
      next hfield => exact ⟨(pure_ok_iff.mp hstep).symm, by simpa using hfield⟩
    refine ⟨e, he, fun key hkey => .inl ?_⟩
    obtain ⟨kv, hkv, rfl⟩ := List.mem_map.mp hkey
    exact hfields kv hkv
  next => cases h

/-- A step that keeps no foreign key as it is takes it away. -/
theorem Treats.resolves (h : w.Treats kind kept nest e key v body next) (hd : e.Declares key)
    (hkept : kept → ¬ e.IsForeign key) : e.Resolves key body next := by
  have herased : e.Resolves key body (Object.erase key body) := .erased hd
  cases h with
  | kept h => exact .same hd (hkept h)
  | nested hr =>
      have hsome : (e.relation? key).isSome = true := by rw [hr]; rfl
      exact (Entity.Resolves.same hd (Entity.not_isForeign_of_relation hsome)).set hsome
  | erased => exact herased
  | linked _ hr | cut _ hr => exact herased.set (Entity.relation?_of_foreign hr)

theorem KeptOnTop.not_isForeign (h : KeptOnTop e key v) : ¬ e.IsForeign key := by
  rcases h with ⟨_, hnone⟩ | ⟨_, hsome, _⟩
  · exact Entity.not_isForeign_of_none hnone
  · exact Entity.not_isForeign_of_relation hsome

/-! ## Bodies -/

theorem createItem_closed {nesting : Nesting} (hd : w.Declares entity item)
    (h : w.createItem nesting entity path item = .ok out) : w.Closed entity out := by
  obtain ⟨e, he, hall⟩ := hd
  obtain ⟨e', he', h⟩ := bind_ok_iff.mp h
  cases he.symm.trans he'
  refine ⟨e, he, Entity.closed_of_steps (fun key => key) (List.map_id _) (fun hin hstep => ?_) h⟩
  exact (createMember_treats hstep).resolves (hall _ hin) fun hkept => Entity.not_isForeign_of_none hkept.1

theorem create_closed {payload : Object} (h : w.create entity payload = .ok out) : w.Closed entity out := by
  obtain ⟨stripped, _, h⟩ := bind_ok_iff.mp h
  obtain ⟨e, he, h⟩ := bind_ok_iff.mp h
  refine ⟨e, he, Entity.closed_of_steps (fun key => key) (List.map_id _) (fun _ hstep => ?_) h⟩
  obtain ⟨hd, ht⟩ := createTopMember_treats hstep
  exact ht.resolves hd KeptOnTop.not_isForeign

/-- The relations of an item are turned under their own names. -/
theorem updateItem_declares {nesting : UpdateNesting} (hd : w.Declares entity item)
    (h : w.updateItem nesting entity item = .ok out) : w.Declares entity out := by
  obtain ⟨e, he, hall⟩ := hd
  obtain ⟨f, h, hf⟩ := updateItem_treats he h
  refine ⟨e, he, foldlM_ok_kept (I := fun body => ∀ key ∈ body.keys, e.Declares key)
    (fun {kv body next} _ hi hstep => ?_) hall h⟩
  intro k hk
  cases hf _ _ _ hstep with
  | kept => exact hi k hk
  | nested hr =>
      rcases Object.mem_keys_set.mp hk with rfl | hk
      · exact .inr (by rw [hr]; rfl)
      · exact hi k hk
  | erased =>
      rw [Object.keys_erase] at hk
      exact hi k (List.mem_of_mem_erase hk)
  | linked hkind => exact absurd rfl hkind
  | cut hkind => cases hkind

theorem linkForeignKeys_closed {updating : Bool} (hd : w.Declares entity item)
    (h : w.linkForeignKeys entity updating item = .ok out) : w.Closed entity out := by
  obtain ⟨e, he, hall⟩ := hd
  obtain ⟨f, h, hf⟩ := linkForeignKeys_treats he h
  refine ⟨e, he, Entity.closed_of_steps Prod.fst rfl (fun {kv _ _} hin hstep => ?_) h⟩
  exact (hf _ _ _ hstep).resolves (hall kv.1 (List.mem_map_of_mem hin)) Entity.not_isForeign_of_none

theorem update_closed {id : Value} {payload : Object} (h : w.update entity id payload = .ok out) :
    w.Closed entity out := by
  obtain ⟨stripped, _, h⟩ := bind_ok_iff.mp h
  obtain ⟨keys, _, h⟩ := bind_ok_iff.mp h
  obtain ⟨e, he, h⟩ := bind_ok_iff.mp h
  refine ⟨e, he, Entity.closed_of_steps (fun key => key) (List.map_id _) (fun _ hstep => ?_) h⟩
  obtain ⟨hd, ht⟩ := updateTopMember_treats hstep
  exact ht.resolves hd KeptOnTop.not_isForeign

end Writer

end RecordGraph
