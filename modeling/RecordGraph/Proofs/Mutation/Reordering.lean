import RecordGraph.Proofs.Access.Conjunction
import RecordGraph.Proofs.Mutation.Lists
import RecordGraph.Proofs.Mutation.Outcome

/-!
# Reordered payloads

The order of the members of a payload says nothing: from payloads that are equal but for it come results that are equal
but for it. The loops work on the members in their order, and a foreign key writes under its relation before the loop
gets there or after; what a key ends up with does not tell.
-/

namespace RecordGraph

open Object (Aligned Alike Matches)

/-! ## Operations and meanings -/

namespace Payload

variable {v w : Value} {o o' : Object}

theorem isOperation_reorders (h : v.Reorders w) : isOperation v = isOperation w := by
  cases h with
  | refl => rfl
  | list => rfl
  | @object o o' _ hkeys hvalues hperm hfirst =>
      have hcontains : Object.contains o = Object.contains o' :=
        funext (Object.matches_of_reorders (.object hkeys hvalues hperm hfirst)).contains
      simp only [isOperation, hcontains]

theorem isMeaningful_reorders (h : v.Reorders w) : isMeaningful v = isMeaningful w := by
  cases h with
  | refl => rfl
  | list => rfl
  | object hkeys hvalues hperm hfirst =>
      have hm := Object.matches_of_reorders (.object hkeys hvalues hperm hfirst)
      have hpresent (op : String) := (hm.get op).isPresent
      simp only [isMeaningful, hpresent]

theorem hasMeaning_iff (hn : o.keys.Nodup) : hasMeaning o = true ↔ ∃ key, isMeaningful (o.get key) = true := by
  rw [hasMeaning, List.any_eq_true]
  constructor
  · rintro ⟨kv, hkv, h⟩
    exact ⟨kv.1, (Object.get_of_mem hn hkv).symm ▸ h⟩
  · rintro ⟨key, h⟩
    have hne : o.get key ≠ .null := fun hnull => by rw [hnull] at h; cases h
    exact ⟨_, Object.mem_of_get_ne_null hne, h⟩

theorem hasMeaning_alike (h : Alike o o') : hasMeaning o = hasMeaning o' := by
  rw [Bool.eq_iff_iff, hasMeaning_iff h.nodup, hasMeaning_iff h.nodup']
  exact exists_congr fun key => by rw [isMeaningful_reorders (h.same.get key)]

end Payload

/-! ## Conditions -/

namespace Guard

theorem merge_aligned {filter filter' : Object} (h : Aligned filter filter') (guard : Object) :
    Aligned (merge filter guard) (merge filter' guard) := by
  have hclashes : clashes filter = clashes filter' := by
    funext condition
    rw [clashes, clashes]
    rcases h.matches.found condition.1 with ⟨hnone, hnone'⟩ | ⟨v, v', hv, hv', hvv⟩
    · rw [hnone, hnone']
    · rw [hv, hv']
      simp only [hvv.same]
  have hbase : Aligned (base filter guard) (base filter' guard) := by
    rw [base, base, flat, flat, hclashes]
    exact h.update (.refl _)
  rw [merge_eq, merge_eq, hclashes]
  split
  · exact hbase
  · refine hbase.set "AND" (.list (List.rel_append ?_ (Value.reorders_items _)))
    exact (hbase.matches.get "AND").asItems

end Guard

/-- No relation that a field holds the key of goes by the name of the field that holds the key of another. -/
def Schema.Unchained (s : Schema) : Prop := ∀ name e, s.entity name = .ok e → e.Unchained

namespace Writer

variable {w : Writer} {updating : Bool} {nest : Relation → Value → Option Value → Prop} {role : String → Role}
  {e : Entity} {entity : String} {item item' body body' out out' condition condition' filter filter' : Object}
  {key : String} {keys : List String} {r : Relation} {v v' parent : Value} {o o' : Option Value}

theorem guarded_aligned (hc : Aligned condition condition') (h : w.guarded entity condition = .ok filter)
    (h' : w.guarded entity condition' = .ok filter') : Aligned filter filter' := by
  obtain ⟨guard, hg, h⟩ := bind_ok_iff.mp h
  obtain ⟨guard', hg', h'⟩ := bind_ok_iff.mp h'
  rw [hg] at hg'
  cases hg'
  obtain rfl := pure_ok_iff.mp h
  obtain rfl := pure_ok_iff.mp h'
  exact Guard.merge_aligned hc guard

theorem keyWhere_aligned (hm : Matches item item') (h : keyWhere keys item = .ok condition)
    (h' : keyWhere keys item' = .ok condition') : Aligned condition condition' := by
  have hkeys : List.Forall₂ (· = ·) keys keys := List.forall₂_refl keys
  refine (forall₂_square hkeys (mapM_ok_forall₂ h) (mapM_ok_forall₂ h')).imp fun kv kv' hkv => ?_
  obtain ⟨k, _, rfl, hk, hk'⟩ := hkv
  rcases hm.found k with ⟨hnone, _⟩ | ⟨v, v', hv, hv', hvv⟩
  · rw [hnone] at hk
    cases hk
  · rw [hv] at hk
    rw [hv'] at hk'
    cases hk
    cases hk'
    exact ⟨rfl, hvv⟩

theorem itemWhere_aligned {joinKey : Option (List String)} (hm : Matches item item')
    (h : itemWhere r keys joinKey parent item = .ok condition)
    (h' : itemWhere r keys joinKey parent item' = .ok condition') : Aligned condition condition' := by
  cases joinKey with
  | none => exact keyWhere_aligned hm h h'
  | some names =>
      obtain rfl := pure_ok_iff.mp h
      obtain rfl := pure_ok_iff.mp h'
      refine .cons ⟨rfl, Aligned.reorders (.update (.refl _) ?_)⟩ .nil
      have hnames : List.Forall₂ (· = ·) names names := List.forall₂_refl names
      refine List.rel_filterMap (fun n n' hn => ?_) hnames
      subst hn
      rcases hm.found n with ⟨hnone, hnone'⟩ | ⟨v, v', hv, hv', hvv⟩
      · rw [hnone, hnone']
        exact .none
      · rw [hv, hv']
        exact .some ⟨rfl, hvv⟩

theorem complete_matches (hm : Matches item item') :
    (keys.all fun k => !(Object.get item k).isNull) = keys.all fun k => !(Object.get item' k).isNull :=
  congrArg keys.all (funext fun k => by rw [(hm.get k).isNull])

theorem itemKind_matches {joinKey : Option (List String)} (hm : Matches item item') :
    itemKind keys joinKey item = itemKind keys joinKey item' := by
  have hgiven : keys.all (Object.keys item).contains = keys.all (Object.keys item').contains := by
    refine congrArg keys.all (funext fun k => ?_)
    rw [Bool.eq_iff_iff, List.contains_iff_mem, List.contains_iff_mem, hm.mem_keys]
  cases joinKey with
  | none => simp only [itemKind, complete_matches hm, hgiven, hm.all_keys keys.contains]
  | some names => simp only [itemKind, complete_matches hm, hm.all_keys names.contains]

theorem connectWhere_aligned (hv : v.Reorders v') (h : w.connectWhere r v = .ok filter)
    (h' : w.connectWhere r v' = .ok filter') : Aligned filter filter' := by
  obtain ⟨keys, hkeys, h⟩ := bind_ok_iff.mp h
  obtain ⟨keys', hkeys', h'⟩ := bind_ok_iff.mp h'
  rw [hkeys] at hkeys'
  cases hkeys'
  by_cases hwhole : 1 < keys.length ∧ (r.foreignKey?.getD "") = ""
  · rw [if_pos hwhole] at h h'
    cases hv with
    | refl =>
        rw [h] at h'
        cases h'
        exact .refl _
    | list hitems =>
        refine guarded_aligned ?_ h h'
        exact .cons ⟨rfl, .list hitems⟩ .nil
    | @object given given' _ hparts hvalues hperm hfirst =>
        have hm := Object.matches_of_reorders (.object hparts hvalues hperm hfirst)
        have hnull : ∀ k, (Object.get given k).isNull = (Object.get given' k).isNull := fun k => (hm.get k).isNull
        refine guarded_aligned ?_ h h'
        simp only [hnull]
        rw [Aligned, List.forall₂_map_left_iff, List.forall₂_map_right_iff, List.forall₂_same]
        exact fun k _ => ⟨rfl, hm.get k⟩
  · rw [if_neg hwhole] at h h'
    obtain ⟨key, hkey, h⟩ := bind_ok_iff.mp h
    obtain ⟨key', hkey', h'⟩ := bind_ok_iff.mp h'
    rw [hkey] at hkey'
    cases hkey'
    refine guarded_aligned ?_ h h'
    exact .cons ⟨rfl, hv⟩ .nil

theorem connect_reorders {ops ops' : Value} (hv : v.Reorders v') (h : w.connect r v = .ok ops)
    (h' : w.connect r v' = .ok ops') : ops.Reorders ops' := by
  obtain ⟨filter, hf, h⟩ := bind_ok_iff.mp h
  obtain ⟨filter', hf', h'⟩ := bind_ok_iff.mp h'
  obtain rfl := pure_ok_iff.mp h
  obtain rfl := pure_ok_iff.mp h'
  exact Aligned.reorders (.cons ⟨rfl, (connectWhere_aligned hv hf hf').reorders⟩ .nil)

/-! ## Outcomes -/

theorem Links.reorders (hv : v.Reorders v') (h : w.Links updating r v o) (h' : w.Links updating r v' o') :
    Option.Rel Value.Reorders o o' := by
  cases h with
  | connect hne hc =>
      cases h' with
      | connect _ hc' => exact .some (connect_reorders hv hc hc')
      | cut | drop => exact absurd (hv.null_iff.mpr rfl) hne
  | cut hu =>
      cases h' with
      | connect hne' => exact absurd (hv.null_iff.mp rfl) hne'
      | cut => exact .some (.refl _)
      | drop hu' => rw [hu] at hu'; cases hu'
  | drop hu =>
      cases h' with
      | connect hne' => exact absurd (hv.null_iff.mp rfl) hne'
      | cut hu' => rw [hu] at hu'; cases hu'
      | drop => exact .none

theorem Own.reorders (hm : Matches item item')
    (hnest : ∀ r, role key = .relation r → ∀ o o', nest r (item.get key) o → nest r (item'.get key) o' →
      Option.Rel Value.Reorders o o')
    (h : Own nest role item key o) (h' : Own nest role item' key o') : Option.Rel Value.Reorders o o' := by
  have hnests : (item.get key).nests = (item'.get key).nests := by
    rw [Value.nests, Value.nests, (hm.get key).isPresent, (hm.get key).isObject, (hm.get key).isList]
  cases h with
  | kept hrole =>
      cases h' with
      | kept => exact hm key
      | nested hr' hv' =>
          rcases hrole with hrole | ⟨_, _, hflat⟩
          · rw [hrole] at hr'; cases hr'
          · rw [hnests, hv'] at hflat; cases hflat
      | foreign hr' => rcases hrole with hrole | ⟨_, hrole, _⟩ <;> rw [hrole] at hr' <;> cases hr'
  | nested hr hv hn =>
      cases h' with
      | kept hrole' =>
          rcases hrole' with hrole' | ⟨_, _, hflat'⟩
          · rw [hrole'] at hr; cases hr
          · rw [← hnests, hv] at hflat'; cases hflat'
      | nested hr' _ hn' =>
          rw [hr] at hr'
          cases hr'
          exact hnest _ hr _ _ hn hn'
      | foreign hr' => rw [hr] at hr'; cases hr'
  | foreign hr =>
      cases h' with
      | kept hrole' => rcases hrole' with hrole' | ⟨_, hrole', _⟩ <;> rw [hrole'] at hr <;> cases hr
      | nested hr' => rw [hr] at hr'; cases hr'
      | foreign => exact .none

/-- What a key ends up with is the same in reordered items if what the value of a relation is turned into is. -/
theorem Ends.reorders (ha : Role.Apart role) (hm : Matches item item')
    (hnest : ∀ r, role key = .relation r → ∀ o o', nest r (item.get key) o → nest r (item'.get key) o' →
      Option.Rel Value.Reorders o o')
    (h : w.Ends updating nest role item key o) (h' : w.Ends updating nest role item' key o') :
    Option.Rel Value.Reorders o o' := by
  cases h with
  | linked hf hr hname hl =>
      cases h' with
      | linked hf' hr' hname' hl' =>
          obtain rfl := ha.single hr hr' (hname.trans hname'.symm)
          rw [hr] at hr'
          cases hr'
          exact hl.reorders (hm.get _) hl'
      | own hno' => cases hl.reorders (hm.get _) (hno' _ _ (hm.mem_keys.mp hf) hr hname)
  | own hno hdone hleft =>
      cases h' with
      | linked hf' hr' hname' hl' =>
          cases Links.reorders (hm.get _) (hno _ _ (hm.mem_keys.mpr hf') hr' hname') hl'
      | own _ hdone' hleft' =>
          by_cases hk : key ∈ item.keys
          · exact (hdone hk).reorders hm hnest (hdone' (hm.mem_keys.mp hk))
          · rw [hleft hk, hleft' (hm.mem_keys.not.mp hk)]
            exact hm key

/-- What a nesting gives for a value does not depend on the order of members. -/
def Respects (nest : Relation → Value → Option Value → Prop) : Prop :=
  ∀ r v v' o o', v.Rearranges v' → nest r v o → nest r v' o' → Option.Rel Value.Reorders o o'

theorem ends_match (ha : Role.Apart role) (hnest : Respects nest)
    (hm : (Value.object item).Rearranges (.object item'))
    (h : ∀ key, w.Ends updating nest role item key (Object.get? key out))
    (h' : ∀ key, w.Ends updating nest role item' key (Object.get? key out')) : Matches out out' := fun key =>
  (h key).reorders ha hm.alike.same (fun r _ o o' => hnest r _ _ o o' (hm.get key)) (h' key)

theorem updateItem_alike {levels : Nat} (hnest : Respects (w.updateNested levels parent).Gives)
    (hm : (Value.object item).Rearranges (.object item'))
    (h : w.updateItem (w.updateNested levels parent) entity item = .ok out)
    (h' : w.updateItem (w.updateNested levels parent) entity item' = .ok out') : Alike out out' := by
  obtain ⟨e, he, _⟩ := bind_ok_iff.mp h
  obtain ⟨hn, hends⟩ := updateItem_ends he hm.proper.keys h
  obtain ⟨hn', hends'⟩ := updateItem_ends he hm.proper'.keys h'
  exact ⟨hn, hn', ends_match Entity.relationRole_apart hnest hm hends hends'⟩

/-! ## Operations -/

/-- Items are placed alike, but for the order of members. -/
inductive Placement.Alike : Placement → Placement → Prop
  | create {body body' : Object} (h : (Value.object body).Reorders (.object body')) :
      Alike (.create body) (.create body')
  | connect {filter filter' : Object} (h : Aligned filter filter') : Alike (.connect filter) (.connect filter')
  | either {filter filter' body body' : Object} (hf : Aligned filter filter')
      (hb : (Value.object body).Reorders (.object body')) :
      Alike (.connectOrCreate filter body) (.connectOrCreate filter' body')

theorem Placement.member_aligned {op : String} {items items' : List Value}
    (h : List.Forall₂ Value.Reorders items items') :
    Aligned (Placement.member op items) (Placement.member op items') := by
  unfold Placement.member
  cases h with
  | nil => exact .nil
  | cons hv hrest => exact .cons ⟨rfl, .list (.cons hv hrest)⟩ .nil

theorem Placement.operations_aligned {ps ps' : List Placement} (h : List.Forall₂ Placement.Alike ps ps') :
    Aligned (Placement.operations ps) (Placement.operations ps') := by
  refine ((member_aligned ?_).append (member_aligned ?_)).append (member_aligned ?_)
  · refine List.rel_filterMap (fun p p' hp => ?_) h
    cases hp with
    | create hb => exact .some hb
    | connect | either => exact .none
  · refine List.rel_filterMap (fun p p' hp => ?_) h
    cases hp with
    | connect hf => exact .some hf.reorders
    | create | either => exact .none
  · refine List.rel_filterMap (fun p p' hp => ?_) h
    cases hp with
    | either hf hb => exact .some (Aligned.reorders (.cons ⟨rfl, hf.reorders⟩ (.cons ⟨rfl, hb⟩ .nil)))
    | create | connect => exact .none

/-- What becomes of an item is the same operation on entries that are equal but for the order of members, or nothing. -/
def Placed (p p' : Option (String × Value)) : Prop :=
  Option.Rel (fun entry entry' : String × Value => entry.1 = entry'.1 ∧ entry.2.Reorders entry'.2) p p'

theorem listOperations_aligned {placed placed' : List (Option (String × Value))}
    (h : List.Forall₂ Placed placed placed') : Aligned (listOperations placed) (listOperations placed') := by
  have hops : List.Forall₂ (· = ·) listKinds listKinds := List.forall₂_refl _
  refine List.rel_flatMap hops fun op op' hop => ?_
  subst hop
  refine Placement.member_aligned (List.rel_filterMap (fun p p' hp => ?_) h)
  cases hp with
  | none => exact .none
  | some hentry =>
      obtain ⟨hname, hv⟩ := hentry
      rw [Option.bind_some, Option.bind_some, hname]
      split
      · exact .some hv
      · exact .none

/-- A record is left alone if there is nothing to write. -/
theorem upsert_reorders {parts parts' : Object} (h : Aligned parts parts') : Option.Rel Value.Reorders
    (if parts.isEmpty then none else some (.object [("upsert", .object parts)]))
    (if parts'.isEmpty then none else some (.object [("upsert", .object parts')])) := by
  cases h with
  | nil => exact .none
  | cons hkv hrest => exact .some (Aligned.reorders (.cons ⟨rfl, Aligned.reorders (.cons hkv hrest)⟩ .nil))

section
variable (hs : w.view.schema.Distinct) (hu : w.view.schema.Unchained)
include hs hu

/-! ## Created records -/

theorem createItem_reorders {levels : Nat} {path path' : String} (hnest : Respects (w.createNested levels).Gives)
    (hm : (Value.object item).Rearranges (.object item'))
    (h : w.createItem (w.createNested levels) entity path item = .ok out)
    (h' : w.createItem (w.createNested levels) entity path' item' = .ok out') :
    (Value.object out).Reorders (.object out') := by
  obtain ⟨e, he, _⟩ := bind_ok_iff.mp h
  obtain ⟨hn, hends⟩ := createItem_ends (hs _ _ he) (hu _ _ he) he hm.proper.keys h
  obtain ⟨hn', hends'⟩ := createItem_ends (hs _ _ he) (hu _ _ he) he hm.proper'.keys h'
  have hapart := Entity.roles_apart (hs _ _ he) (hu _ _ he) Entity.foreign_createRole
  exact Object.Alike.reorders ⟨hn, hn', ends_match hapart hnest hm hends hends'⟩

theorem placeItem_alike {levels : Nat} {path path' : String} {joined : Bool} {dropped : List String} {p p' : Placement}
    (hnest : Respects (w.createNested levels).Gives) (hv : v.Rearranges v')
    (h : w.placeItem (w.createNested levels) r path keys joined dropped v = .ok p)
    (h' : w.placeItem (w.createNested levels) r path' keys joined dropped v' = .ok p') : p.Alike p' := by
  obtain ⟨item, hitem, h⟩ := bind_ok_iff.mp h
  obtain ⟨item', hitem', h'⟩ := bind_ok_iff.mp h'
  obtain rfl := checkedItem_ok hitem
  obtain rfl := checkedItem_ok hitem'
  have hm := hv.alike.same
  dsimp only at h h'
  rw [← complete_matches hm, ← hm.all_keys keys.contains] at h'
  split at h
  next hcreate =>
    rw [if_pos hcreate] at h'
    obtain ⟨_, _, h⟩ := bind_ok_iff.mp h
    obtain ⟨body, hb, h⟩ := bind_ok_iff.mp h
    obtain ⟨_, _, h'⟩ := bind_ok_iff.mp h'
    obtain ⟨body', hb', h'⟩ := bind_ok_iff.mp h'
    obtain rfl := pure_ok_iff.mp h
    obtain rfl := pure_ok_iff.mp h'
    exact .create (createItem_reorders hs hu hnest (hv.without dropped) hb hb')
  next hcreate =>
    rw [if_neg hcreate] at h'
    split at h
    next hconnect =>
      rw [if_pos hconnect] at h'
      obtain ⟨condition, hc, h⟩ := bind_ok_iff.mp h
      obtain ⟨filter, hf, h⟩ := bind_ok_iff.mp h
      obtain ⟨condition', hc', h'⟩ := bind_ok_iff.mp h'
      obtain ⟨filter', hf', h'⟩ := bind_ok_iff.mp h'
      obtain rfl := pure_ok_iff.mp h
      obtain rfl := pure_ok_iff.mp h'
      exact .connect (guarded_aligned (keyWhere_aligned hm hc hc') hf hf')
    next hconnect =>
      rw [if_neg hconnect] at h'
      obtain ⟨_, _, h⟩ := bind_ok_iff.mp h
      obtain ⟨condition, hc, h⟩ := bind_ok_iff.mp h
      obtain ⟨filter, hf, h⟩ := bind_ok_iff.mp h
      obtain ⟨body, hb, h⟩ := bind_ok_iff.mp h
      obtain ⟨_, _, h'⟩ := bind_ok_iff.mp h'
      obtain ⟨condition', hc', h'⟩ := bind_ok_iff.mp h'
      obtain ⟨filter', hf', h'⟩ := bind_ok_iff.mp h'
      obtain ⟨body', hb', h'⟩ := bind_ok_iff.mp h'
      obtain rfl := pure_ok_iff.mp h
      obtain rfl := pure_ok_iff.mp h'
      exact .either (guarded_aligned (keyWhere_aligned hm hc hc') hf hf')
        (createItem_reorders hs hu hnest (hv.without dropped) hb hb')

theorem createMany_reorders {levels : Nat} {path path' : String} {items items' : List Value} {ops ops' : Value}
    (hnest : Respects (w.createNested levels).Gives) (hv : (Value.list items).Rearranges (.list items'))
    (h : w.createMany (w.createNested levels) r items path = .ok ops)
    (h' : w.createMany (w.createNested levels) r items' path' = .ok ops') : ops.Reorders ops' := by
  obtain ⟨keys, hkeys, h⟩ := bind_ok_iff.mp h
  obtain ⟨joinKey, hj, h⟩ := bind_ok_iff.mp h
  obtain ⟨omitted, ho, h⟩ := bind_ok_iff.mp h
  obtain ⟨ps, hps, h⟩ := bind_ok_iff.mp h
  obtain ⟨_, hkeys', h'⟩ := bind_ok_iff.mp h'
  cases hkeys.symm.trans hkeys'
  obtain ⟨_, hj', h'⟩ := bind_ok_iff.mp h'
  cases hj.symm.trans hj'
  obtain ⟨_, ho', h'⟩ := bind_ok_iff.mp h'
  cases ho.symm.trans ho'
  obtain ⟨ps', hps', h'⟩ := bind_ok_iff.mp h'
  obtain rfl := pure_ok_iff.mp h
  obtain rfl := pure_ok_iff.mp h'
  refine (Placement.operations_aligned ?_).reorders
  refine (forall₂_square hv.items (mapM_ok_forall₂ hps) (mapM_ok_forall₂ hps')).imp fun p p' hp => ?_
  obtain ⟨_, _, hitem, hp, hp'⟩ := hp
  exact placeItem_alike hs hu hnest hitem hp hp'

theorem createOne_reorders {levels : Nat} {path path' : String} {ops ops' : Value}
    (hnest : Respects (w.createNested levels).Gives) (hv : v.Rearranges v')
    (h : w.createOne (w.createNested levels) r v path = .ok ops)
    (h' : w.createOne (w.createNested levels) r v' path' = .ok ops') : ops.Reorders ops' := by
  unfold createOne at h h'
  rw [← Payload.isOperation_reorders hv.reorders] at h'
  split at h
  next hop =>
    rw [if_pos hop] at h'
    obtain rfl := pure_ok_iff.mp h
    obtain rfl := pure_ok_iff.mp h'
    exact hv.reorders
  next hop =>
    rw [if_neg hop] at h'
    obtain ⟨_, _, h⟩ := bind_ok_iff.mp h
    obtain ⟨_, _, h'⟩ := bind_ok_iff.mp h'
    obtain ⟨omitted, ho, h⟩ := bind_ok_iff.mp h
    obtain ⟨_, ho', h'⟩ := bind_ok_iff.mp h'
    cases ho.symm.trans ho'
    split at h
    next members =>
      split at h'
      next members' =>
        obtain ⟨checked, hc, h⟩ := bind_ok_iff.mp h
        obtain ⟨checked', hc', h'⟩ := bind_ok_iff.mp h'
        obtain rfl := Value.object.inj (checkedItem_ok hc)
        obtain rfl := Value.object.inj (checkedItem_ok hc')
        obtain ⟨body, hb, h⟩ := bind_ok_iff.mp h
        obtain ⟨body', hb', h'⟩ := bind_ok_iff.mp h'
        obtain rfl := pure_ok_iff.mp h
        obtain rfl := pure_ok_iff.mp h'
        have hbody := createItem_reorders hs hu hnest (hv.without omitted) hb hb'
        exact Aligned.reorders (.cons ⟨rfl, hbody⟩ .nil)
      next => cases h'
    next => cases h

/-- The operations for a new record do not depend on the order of members, however deep they stand. -/
theorem createNested_respects (levels : Nat) : Respects (w.createNested levels).Gives := by
  induction levels with
  | zero =>
      rintro r v v' o o' _ ⟨_, _, h, _⟩
      cases h
  | succ levels ih =>
      rintro r v v' o o' hv ⟨path, ops, h, rfl⟩ ⟨path', ops', h', rfl⟩
      refine .some ?_
      rw [createNested] at h h'
      dsimp only at h h'
      split at h
      next items =>
        obtain ⟨items', rfl⟩ := hv.reorders.list_iff.mp ⟨items, rfl⟩
        exact createMany_reorders hs hu ih hv h h'
      next hlist =>
        split at h'
        next items' =>
          obtain ⟨items, rfl⟩ := hv.reorders.list_iff.mpr ⟨items', rfl⟩
          exact absurd rfl (hlist items)
        next => exact createOne_reorders hs hu ih hv h h'

/-! ## Updated records -/

theorem linkForeignKeys_alike (hm : Alike item item') (h : w.linkForeignKeys entity updating item = .ok out)
    (h' : w.linkForeignKeys entity updating item' = .ok out') : Alike out out' := by
  obtain ⟨e, he, _⟩ := bind_ok_iff.mp h
  obtain ⟨hn, hends⟩ := linkForeignKeys_ends (hs _ _ he) (hu _ _ he) he hm.nodup h
  obtain ⟨hn', hends'⟩ := linkForeignKeys_ends (hs _ _ he) (hu _ _ he) he hm.nodup' h'
  have hapart := Entity.roles_apart (hs _ _ he) (hu _ _ he) Entity.foreign_foreignRole
  exact ⟨hn, hn', fun key => (hends key).reorders hapart hm.same (fun _ _ _ _ hno => hno.elim) (hends' key)⟩

theorem upsertEntry_reorders {joinKey : Option (List String)} {dropped : List String} {canCreate : Bool}
    {guard : Object} {entry entry' : Value} (hm : Alike item item')
    (h : w.upsertEntry r keys joinKey parent dropped canCreate guard item = .ok entry)
    (h' : w.upsertEntry r keys joinKey parent dropped canCreate guard item' = .ok entry') : entry.Reorders entry' := by
  obtain ⟨condition, hc, h⟩ := bind_ok_iff.mp h
  obtain ⟨changes, hch, h⟩ := bind_ok_iff.mp h
  obtain ⟨condition', hc', h'⟩ := bind_ok_iff.mp h'
  obtain ⟨changes', hch', h'⟩ := bind_ok_iff.mp h'
  have hwhere := (Guard.merge_aligned (itemWhere_aligned hm.same hc hc') guard).reorders
  have hchanges := (linkForeignKeys_alike hs hu ((hm.without _).without _) hch hch').reorders
  cases canCreate with
  | true =>
      obtain ⟨whole, hw, h⟩ := bind_ok_iff.mp h
      obtain ⟨whole', hw', h'⟩ := bind_ok_iff.mp h'
      have hwhole := (linkForeignKeys_alike hs hu (hm.without _) hw hw').reorders
      obtain rfl := pure_ok_iff.mp h
      obtain rfl := pure_ok_iff.mp h'
      exact Aligned.reorders (.cons ⟨rfl, hwhere⟩ (.cons ⟨rfl, hwhole⟩ (.cons ⟨rfl, hchanges⟩ .nil)))
  | false =>
      obtain rfl := pure_ok_iff.mp h
      obtain rfl := pure_ok_iff.mp h'
      exact Aligned.reorders (.cons ⟨rfl, hwhere⟩ (.cons ⟨rfl, hchanges⟩ .nil))

theorem ListTerms.Enters.reorders {t : w.ListTerms r} {p p' : Option (String × Value)} (hm : Alike item item')
    (h : t.Enters parent item p) (h' : t.Enters parent item' p') : Placed p p' := by
  have hkind : t.kindOf item = t.kindOf item' := itemKind_matches hm.same
  cases h with
  | connect hk hc hf =>
      cases h' with
      | connect _ hc' hf' =>
          exact .some ⟨rfl, (guarded_aligned (itemWhere_aligned hm.same hc hc') hf hf').reorders⟩
      | upsert hk' | create hk' | left hk' => rw [hkind, hk'] at hk; cases hk
  | upsert hk hg he =>
      cases h' with
      | upsert _ hg' he' =>
          rw [hg] at hg'
          cases hg'
          exact .some ⟨rfl, upsertEntry_reorders hs hu hm he he'⟩
      | connect hk' | create hk' | left hk' => rw [hkind, hk'] at hk; cases hk
  | create hk hcan hb =>
      cases h' with
      | create _ _ hb' => exact .some ⟨rfl, (linkForeignKeys_alike hs hu (hm.without _) hb hb').reorders⟩
      | connect hk' | upsert hk' => rw [hkind, hk'] at hk; cases hk
      | left _ hcan' => rw [hcan] at hcan'; cases hcan'
  | left hk hcan =>
      cases h' with
      | left => exact .none
      | connect hk' | upsert hk' => rw [hkind, hk'] at hk; cases hk
      | create _ hcan' => rw [hcan] at hcan'; cases hcan'

theorem updateMany_reorders {levels : Nat} {items items' : List Value} {above ops ops' : Value}
    (hnest : Respects (w.updateNested levels above).Gives) (hv : (Value.list items).Rearranges (.list items'))
    (h : w.updateMany (w.updateNested levels above) r items parent = .ok ops)
    (h' : w.updateMany (w.updateNested levels above) r items' parent = .ok ops') : ops.Reorders ops' := by
  obtain ⟨t, placed, hplaced, rfl⟩ := updateMany_enters h
  obtain ⟨t', placed', hplaced', rfl⟩ := updateMany_enters h'
  obtain rfl := t.unique t'
  refine (listOperations_aligned ?_).reorders
  refine (forall₂_square hv.items hplaced hplaced').imp fun p p' hp => ?_
  obtain ⟨_, _, hgiven, ⟨item, prepared, hitem, hprep, hp⟩, item', prepared', hitem', hprep', hp'⟩ := hp
  obtain rfl := checkedItem_ok hitem
  obtain rfl := checkedItem_ok hitem'
  exact hp.reorders hs hu (updateItem_alike hnest hgiven hprep hprep') hp'

theorem updateOne_reorders {levels : Nat} (hnest : Respects (w.updateNested levels parent).Gives)
    (hv : v.Rearranges v') (h : w.updateOne (w.updateNested levels parent) r v = .ok o)
    (h' : w.updateOne (w.updateNested levels parent) r v' = .ok o') : Option.Rel Value.Reorders o o' := by
  unfold updateOne at h h'
  rw [← Payload.isOperation_reorders hv.reorders] at h'
  split at h
  next hop =>
    rw [if_pos hop] at h'
    obtain rfl := pure_ok_iff.mp h
    obtain rfl := pure_ok_iff.mp h'
    exact .some hv.reorders
  next hop =>
    rw [if_neg hop] at h'
    obtain ⟨_, _, h⟩ := bind_ok_iff.mp h
    obtain ⟨_, _, h'⟩ := bind_ok_iff.mp h'
    obtain ⟨omitted, ho, h⟩ := bind_ok_iff.mp h
    obtain ⟨_, ho', h'⟩ := bind_ok_iff.mp h'
    cases ho.symm.trans ho'
    split at h
    next members =>
      split at h'
      next members' =>
        obtain ⟨checked, hc, h⟩ := bind_ok_iff.mp h
        obtain ⟨checked', hc', h'⟩ := bind_ok_iff.mp h'
        obtain rfl := Value.object.inj (checkedItem_ok hc)
        obtain rfl := Value.object.inj (checkedItem_ok hc')
        obtain ⟨processed, hp, h⟩ := bind_ok_iff.mp h
        obtain ⟨processed', hp', h'⟩ := bind_ok_iff.mp h'
        obtain ⟨whole, hw, h⟩ := bind_ok_iff.mp h
        obtain ⟨whole', hw', h'⟩ := bind_ok_iff.mp h'
        obtain ⟨keys, hkeys, h⟩ := bind_ok_iff.mp h
        obtain ⟨_, hkeys', h'⟩ := bind_ok_iff.mp h'
        cases hkeys.symm.trans hkeys'
        obtain ⟨changes, hch, h⟩ := bind_ok_iff.mp h
        obtain ⟨changes', hch', h'⟩ := bind_ok_iff.mp h'
        have hprocessed := updateItem_alike hnest (hv.without omitted) hp hp'
        have hwhole := linkForeignKeys_alike hs hu hprocessed hw hw'
        have hchanges := linkForeignKeys_alike hs hu (hprocessed.without keys) hch hch'
        rw [← Payload.hasMeaning_alike hwhole, ← Payload.hasMeaning_alike hchanges] at h'
        have hmember {body body' : Value} (key : String) (worth : Bool) (hb : body.Reorders body') :
            Aligned (if worth then [(key, body)] else []) (if worth then [(key, body')] else []) := by
          cases worth with
          | false => exact .nil
          | true => exact .cons ⟨rfl, hb⟩ .nil
        obtain rfl := pure_ok_iff.mp h
        obtain rfl := pure_ok_iff.mp h'
        exact upsert_reorders ((hmember "create" (Payload.hasMeaning whole) hwhole.reorders).append
          (hmember "update" (Payload.hasMeaning changes) hchanges.reorders))
      next => cases h'
    next => cases h

/-- The operations for an update do not depend on the order of members, however deep they stand. -/
theorem updateNested_respects (levels : Nat) (parent : Value) : Respects (w.updateNested levels parent).Gives := by
  induction levels generalizing parent with
  | zero =>
      intro r v v' o o' _ h
      cases h
  | succ levels ih =>
      intro r v v' o o' hv h h'
      rw [UpdateNesting.Gives, updateNested] at h h'
      dsimp only at h h'
      split at h
      next items =>
        obtain ⟨items', rfl⟩ := hv.reorders.list_iff.mp ⟨items, rfl⟩
        obtain ⟨ops, hops, rfl⟩ := map_ok_iff.mp h
        obtain ⟨ops', hops', rfl⟩ := map_ok_iff.mp h'
        exact .some (updateMany_reorders hs hu (ih .null) hv hops hops')
      next hlist =>
        split at h'
        next items' =>
          obtain ⟨items, rfl⟩ := hv.reorders.list_iff.mpr ⟨items', rfl⟩
          exact absurd rfl (hlist items)
        next => exact updateOne_reorders hs hu (ih .null) hv h h'

end

/-- The fields and operations that are worked out of a payload do not depend on the order of its members, at whatever
depth they stand. -/
theorem order_irrelevant (w : Writer) (hs : w.view.schema.Distinct) (hu : w.view.schema.Unchained) {entity : String}
    {payload payload' : Object} (hp : (Value.object payload).Proper) (hp' : (Value.object payload').Proper)
    (hr : (Value.object payload).Reorders (.object payload')) :
    (∀ out out', w.create entity payload = .ok out → w.create entity payload' = .ok out' →
      (Value.object out).Reorders (.object out')) ∧
    ∀ id out out', w.update entity id payload = .ok out → w.update entity id payload' = .ok out' →
      (Value.object out).Reorders (.object out') := by
  have hm : (Value.object payload).Rearranges (.object payload') := ⟨hr, hp, hp'⟩
  constructor
  · intro out out' h h'
    obtain ⟨_, _, h''⟩ := bind_ok_iff.mp h
    obtain ⟨e, he, _⟩ := bind_ok_iff.mp h''
    have hapart := Entity.roles_apart (hs _ _ he) (hu _ _ he) Entity.foreign_topRole
    obtain ⟨omitted, ho, hn, hends⟩ := create_ends hapart he hp.keys h
    obtain ⟨omitted', ho', hn', hends'⟩ := create_ends hapart he hp'.keys h'
    cases ho.symm.trans ho'
    exact Object.Alike.reorders ⟨hn, hn', ends_match hapart (createNested_respects hs hu _) (hm.without _) hends hends'⟩
  · intro id out out' h h'
    obtain ⟨_, _, h''⟩ := bind_ok_iff.mp h
    obtain ⟨_, _, h''⟩ := bind_ok_iff.mp h''
    obtain ⟨e, he, _⟩ := bind_ok_iff.mp h''
    have hapart := Entity.roles_apart (hs _ _ he) (hu _ _ he) Entity.foreign_topRole
    obtain ⟨omitted, ho, hn, hends⟩ := update_ends hapart he hp.keys h
    obtain ⟨omitted', ho', hn', hends'⟩ := update_ends hapart he hp'.keys h'
    cases ho.symm.trans ho'
    exact Object.Alike.reorders
      ⟨hn, hn', ends_match hapart (updateNested_respects hs hu _ _) (hm.without _) hends hends'⟩

/-! A book with its author, whose key is given before or after the author. -/

def authoredBook : Object :=
  [("id", .int 3), ("authorId", .int 7), ("author", .object [("id", .int 8)]), ("title", .text "Emma")]

def authoredBookAgain : Object :=
  [("title", .text "Emma"), ("author", .object [("id", .int 8)]), ("authorId", .int 7), ("id", .int 3)]

def authoredShelf : Object := [("books", .list [.object authoredBook])]

def authoredShelfAgain : Object := [("books", .list [.object authoredBookAgain])]

def authoredChanges : Object :=
  [("author", .object [("connect", .object [("id", .int 7)])]), ("title", .text "Emma")]

def authoredChangesAgain : Object :=
  [("title", .text "Emma"), ("author", .object [("connect", .object [("id", .int 7)])])]

def upsertedShelf (whole changes : Object) : Object := [("books", .object [("upsert", .list [
  .object [("where", .object [("id", .int 3)]), ("create", .object whole), ("update", .object changes)]])])]

theorem librarySchema_distinct : librarySchema.Distinct := Schema.distinct_of_all (by decide)

theorem librarySchema_unchained : librarySchema.Unchained := by
  intro name e he
  have hheld := Schema.of_all (P := fun e => e.Apart ∧ ∀ r ∈ e.relations, ∀ field ∈ r.field?, e.IsScalar field)
    (by decide) he
  exact hheld.1.unchained hheld.2

/-- The key of the author prevails wherever it stands. -/
theorem authoredShelf_reordered :
    librarySchema.Distinct ∧ librarySchema.Unchained ∧ (Value.object authoredShelf).Proper ∧
    (Value.object authoredShelfAgain).Proper ∧ (Value.object authoredShelf).Reorders (.object authoredShelfAgain) ∧
    librarian.update "Shelf" (.int 1) authoredShelf =
      .ok (upsertedShelf (("id", .int 3) :: authoredChanges) authoredChanges) ∧
    librarian.update "Shelf" (.int 1) authoredShelfAgain =
      .ok (upsertedShelf (authoredChangesAgain ++ [("id", .int 3)]) authoredChangesAgain) ∧
    (Value.object (upsertedShelf (("id", .int 3) :: authoredChanges) authoredChanges)).Reorders
      (.object (upsertedShelf (authoredChangesAgain ++ [("id", .int 3)]) authoredChangesAgain)) := by
  have hp : (Value.object authoredShelf).Proper := by decide
  have hp' : (Value.object authoredShelfAgain).Proper := by decide
  have hbook : (Value.object authoredBook).Reorders (.object authoredBookAgain) :=
    Object.reorders_of_perm (by decide) (List.reverse_perm authoredBook).symm
  have hr : (Value.object authoredShelf).Reorders (.object authoredShelfAgain) :=
    Aligned.reorders (.cons ⟨rfl, .list (.cons hbook .nil)⟩ .nil)
  have h : librarian.update "Shelf" (.int 1) authoredShelf =
    .ok (upsertedShelf (("id", .int 3) :: authoredChanges) authoredChanges) := rfl
  have h' : librarian.update "Shelf" (.int 1) authoredShelfAgain =
    .ok (upsertedShelf (authoredChangesAgain ++ [("id", .int 3)]) authoredChangesAgain) := rfl
  exact ⟨librarySchema_distinct, librarySchema_unchained, hp, hp', hr, h, h',
    (order_irrelevant librarian librarySchema_distinct librarySchema_unchained hp hp' hr).2 _ _ _ h h'⟩

/-! Books whose editor is held by a field that goes by the name of another relation. -/

def editedSchema : Schema := ⟨[
  ("Shelf", .ok ⟨"Shelf", ["id"], [⟨"id", .scalar, "int", false, false, true, false⟩,
      ⟨"books", .relation, "Book", false, false, false, true⟩],
    [⟨"books", "Book", .many, [], ["shelfId"]⟩]⟩),
  ("Book", .ok ⟨"Book", ["id"], [⟨"id", .scalar, "int", false, false, true, false⟩,
      ⟨"writerId", .scalar, "int", true, false, false, false⟩,
      ⟨"writer", .relation, "Author", true, false, false, false⟩,
      ⟨"editor", .relation, "Author", true, false, false, false⟩],
    [⟨"writer", "Author", .one, ["writerId"], ["id"]⟩, ⟨"editor", "Author", .one, ["writer"], ["id"]⟩]⟩),
  ("Author", .ok ⟨"Author", ["id"], [⟨"id", .scalar, "int", false, false, true, false⟩], []⟩)]⟩

def editor : Writer := { view := ⟨editedSchema, ⟨[]⟩, .principal {}⟩ }

def editedShelf : Object := [("books", .list [.object [("writerId", .int 1), ("writer", .int 2)]])]

def editedShelfAgain : Object := [("books", .list [.object [("writer", .int 2), ("writerId", .int 1)]])]

def authorLinked (key : Value) : Value := .object [("connect", .object [("id", key)])]

/-- The link to the writer is taken for the key of the editor if it is written first. -/
theorem editedShelf_reordered :
    editedSchema.Distinct ∧ editedSchema.ScalarsApart ∧ (Value.object editedShelf).Proper ∧
    (Value.object editedShelfAgain).Proper ∧ (Value.object editedShelf).Reorders (.object editedShelfAgain) ∧
    ∃ out out', editor.create "Shelf" editedShelf = .ok out ∧ editor.create "Shelf" editedShelfAgain = .ok out' ∧
      ¬ (Value.object out).Reorders (.object out') := by
  have hbook : (Value.object [("writerId", .int 1), ("writer", .int 2)]).Reorders
      (.object [("writer", .int 2), ("writerId", .int 1)]) :=
    Object.reorders_of_perm (by decide) (.swap ..)
  refine ⟨Schema.distinct_of_all (by decide), Schema.scalarsApart_of_all (by decide), by decide, by decide,
    Aligned.reorders (.cons ⟨rfl, .list (.cons hbook .nil)⟩ .nil),
    [("books", .object [("create", .list [.object [("editor", authorLinked (authorLinked (.int 1)))]])])],
    [("books", .object [("create", .list [.object [("editor", authorLinked (.int 2)),
      ("writer", authorLinked (.int 1))]])])], rfl, rfl, ?_⟩
  intro hout
  cases Object.matches_of_reorders hout "books" with
  | some hbooks =>
      cases Object.matches_of_reorders hbooks "create" with
      | some hcreate =>
          cases hcreate.asItems with
          | cons hbook => cases Object.matches_of_reorders hbook "writer"

end Writer

end RecordGraph
