import Mathlib.Data.List.Forall2
import Mathlib.Data.List.Nodup
import RecordGraph.Proofs.Value.Members
import RecordGraph.Proofs.Value.Proper
import RecordGraph.Value.Equality

/-!
# Reordered values

The order of the members of an object says nothing. Values that are equal but for it are told apart by nothing that
is asked of a value on its own. In reordered objects the same is found under every key; objects with distinct keys in
which the same is found are reordered: this is how objects that are worked on in different orders are compared.
-/

namespace RecordGraph

/-- Equality up to the order of the members of objects, at any depth. -/
inductive Value.Reorders : Value → Value → Prop
  | refl (v : Value) : Reorders v v
  | list {vs ws : List Value} (h : List.Forall₂ Reorders vs ws) : Reorders (.list vs) (.list ws)
  /-- Put in another order, the members of the one have the keys of the other and, one by one, its values. Members of
  one key, which no proper object has, stay in their order. -/
  | object {o o' sorted : Object} (hkeys : o.keys = sorted.keys)
      (hvalues : List.Forall₂ Reorders (o.map Prod.snd) (sorted.map Prod.snd)) (hperm : sorted.Perm o')
      (hfirst : ∀ key, Object.get? key sorted = Object.get? key o') : Reorders (.object o) (.object o')

namespace Object

/-- The same keys in the same order, with values that are equal but for the order of members. -/
def Aligned (o o' : Object) : Prop :=
  List.Forall₂ (fun kv kv' : String × Value => kv.1 = kv'.1 ∧ kv.2.Reorders kv'.2) o o'

/-- Under every key the same is found, but for the order of members. -/
def Matches (o o' : Object) : Prop := ∀ key, Option.Rel Value.Reorders (get? key o) (get? key o')

/-- Objects with distinct keys in which the same is found. -/
structure Alike (o o' : Object) : Prop where
  nodup : o.keys.Nodup
  nodup' : o'.keys.Nodup
  same : Matches o o'

end Object

namespace Value

variable {v w u : Value} {key : String}

/-! ## What is asked of a value -/

theorem Reorders.isNull (h : v.Reorders w) : v.isNull = w.isNull := by cases h <;> rfl

theorem Reorders.isList (h : v.Reorders w) : v.isList = w.isList := by cases h <;> rfl

theorem Reorders.isObject (h : v.Reorders w) : v.isObject = w.isObject := by cases h <;> rfl

theorem Reorders.list_iff (h : v.Reorders w) : (∃ vs, v = .list vs) ↔ ∃ ws, w = .list ws := by
  cases h with
  | refl => exact Iff.rfl
  | list => exact ⟨fun _ => ⟨_, rfl⟩, fun _ => ⟨_, rfl⟩⟩
  | object => simp only [reduceCtorEq, exists_false]

theorem Reorders.null_iff (h : v.Reorders w) : v = .null ↔ w = .null := by
  cases h with
  | refl => exact Iff.rfl
  | list | object => simp only [reduceCtorEq]

theorem Reorders.isPresent (h : v.Reorders w) : v.isPresent = w.isPresent := by
  cases h with
  | refl => rfl
  | @list vs ws hitems =>
      have hempty : vs.isEmpty = ws.isEmpty := by cases hitems <;> rfl
      simp only [Value.isPresent, hempty]
  | @object o o' sorted hkeys _ hperm _ =>
      have hlength : o.length = o'.length := by
        have hmapped := congrArg List.length hkeys
        simp only [Object.keys, List.length_map] at hmapped
        exact hmapped.trans hperm.length_eq
      have hempty : o.isEmpty = o'.isEmpty := by
        rw [Bool.eq_iff_iff, List.isEmpty_iff_length_eq_zero, List.isEmpty_iff_length_eq_zero, hlength]
      simp only [Value.isPresent, hempty]

theorem reorders_items (vs : List Value) : List.Forall₂ Reorders vs vs :=
  List.forall₂_same.mpr fun v _ => .refl v

theorem Reorders.asItems (h : v.Reorders w) : List.Forall₂ Reorders v.asItems w.asItems := by
  cases h with
  | refl v => exact reorders_items _
  | list hitems => exact hitems
  | object hkeys hvalues hperm hfirst => exact .cons (.object hkeys hvalues hperm hfirst) .nil

end Value

namespace Object

variable {o o' o'' more more' : Object} {key : String} {v w : Value}

/-! ## Aligned objects -/

theorem Aligned.refl (o : Object) : Aligned o o := List.forall₂_same.mpr fun kv _ => ⟨rfl, .refl kv.2⟩

theorem aligned_iff : Aligned o o' ↔
    o.keys = o'.keys ∧ List.Forall₂ Value.Reorders (o.map Prod.snd) (o'.map Prod.snd) := by
  induction o generalizing o' with
  | nil => cases o' <;> simp [Aligned, keys]
  | cons kv o ih =>
      cases o' with
      | nil => simp [Aligned, keys]
      | cons kv' o' =>
          have hrest := @ih o'
          simp only [Aligned, keys] at hrest
          simp only [Aligned, keys, List.map_cons, List.cons.injEq, List.forall₂_cons, hrest]
          tauto

theorem Aligned.reorders (h : Aligned o o') : (Value.object o).Reorders (.object o') :=
  have hparts := aligned_iff.mp h
  .object hparts.1 hparts.2 (List.Perm.refl _) fun _ => rfl

theorem Aligned.append (h : Aligned o o') (hmore : Aligned more more') : Aligned (o ++ more) (o' ++ more') :=
  List.rel_append h hmore

theorem Aligned.get? (h : Aligned o o') (key : String) :
    Option.Rel Value.Reorders (get? key o) (Object.get? key o') := by
  induction h with
  | nil => exact .none
  | @cons kv kv' _ _ hkv _ ih =>
      obtain ⟨k, v⟩ := kv
      obtain ⟨k', v'⟩ := kv'
      obtain ⟨rfl, hv⟩ : k = k' ∧ v.Reorders v' := hkv
      by_cases hk : k = key
      · simpa only [Object.get?, hk, ↓reduceIte] using Option.Rel.some hv
      · simpa only [Object.get?, hk, ↓reduceIte] using ih

theorem Aligned.matches (h : Aligned o o') : Matches o o' := h.get?

theorem Aligned.set (h : Aligned o o') (key : String) (hv : v.Reorders w) :
    Aligned (set key v o) (Object.set key w o') := by
  induction h with
  | nil => exact .cons ⟨rfl, hv⟩ .nil
  | @cons kv kv' _ _ hkv hrest ih =>
      obtain ⟨k, u⟩ := kv
      obtain ⟨k', u'⟩ := kv'
      obtain ⟨rfl, hu⟩ : k = k' ∧ u.Reorders u' := hkv
      by_cases hk : k = key
      · simp only [Object.set, hk, ↓reduceIte]
        exact .cons ⟨rfl, hv⟩ hrest
      · simp only [Object.set, hk, ↓reduceIte]
        exact .cons ⟨rfl, hu⟩ ih

theorem Aligned.update (h : Aligned o o') (hmore : Aligned more more') :
    Aligned (update o more) (Object.update o' more') := by
  unfold Object.update
  induction hmore generalizing o o' with
  | nil => exact h
  | @cons kv kv' _ _ hkv _ ih =>
      obtain ⟨k, u⟩ := kv
      obtain ⟨k', u'⟩ := kv'
      obtain ⟨rfl, hu⟩ : k = k' ∧ u.Reorders u' := hkv
      exact ih (h.set k hu)

/-! ## Objects in which the same is found -/

theorem Matches.refl (o : Object) : Matches o o := (Aligned.refl o).matches

theorem Matches.found (h : Matches o o') (key : String) :
    (Object.get? key o = none ∧ Object.get? key o' = none) ∨
      ∃ v w, Object.get? key o = some v ∧ Object.get? key o' = some w ∧ v.Reorders w := by
  have hkey := h key
  generalize Object.get? key o = found at hkey ⊢
  generalize Object.get? key o' = found' at hkey ⊢
  cases hkey with
  | none => exact .inl ⟨rfl, rfl⟩
  | some hv => exact .inr ⟨_, _, rfl, rfl, hv⟩

theorem Matches.contains (h : Matches o o') (key : String) : o.contains key = o'.contains key := by
  rw [Object.contains, Object.contains]
  rcases h.found key with ⟨hnone, hnone'⟩ | ⟨v, w, hv, hw, _⟩
  · rw [hnone, hnone']
  · rw [hv, hw]
    rfl

theorem Matches.mem_keys (h : Matches o o') : key ∈ o.keys ↔ key ∈ o'.keys := by
  have hsome : (Object.get? key o).isSome = (Object.get? key o').isSome := h.contains key
  rw [← not_iff_not, ← get?_eq_none_iff, ← get?_eq_none_iff, ← Option.isNone_iff_eq_none,
    ← Option.isNone_iff_eq_none, ← Option.not_isSome, ← Option.not_isSome, hsome]

theorem Matches.all_keys (h : Matches o o') (test : String → Bool) : o.keys.all test = o'.keys.all test := by
  rw [Bool.eq_iff_iff, List.all_eq_true, List.all_eq_true]
  exact forall_congr' fun key => by rw [h.mem_keys]

theorem Matches.get (h : Matches o o') (key : String) : (o.get key).Reorders (o'.get key) := by
  rw [Object.get, Object.get]
  rcases h.found key with ⟨hnone, hnone'⟩ | ⟨v, w, hv, hw, hvw⟩
  · rw [hnone, hnone']
    exact .refl _
  · rw [hv, hw]
    exact hvw

theorem Matches.without (h : Matches o o') (dropped : List String) :
    Matches (o.without dropped) (o'.without dropped) := by
  intro key
  by_cases hk : key ∈ dropped
  · rw [get?_without_of_mem hk, get?_without_of_mem hk]
    exact .none
  · rw [get?_without hk, get?_without hk]
    exact h key

theorem get?_perm (hn : o.keys.Nodup) (h : o.Perm o') (key : String) : Object.get? key o = Object.get? key o' := by
  have hn' : o'.keys.Nodup := (h.map Prod.fst).nodup_iff.mp hn
  refine get?_eq_of_members (fun v hv => ?_) (fun v hv => ?_)
  · exact get?_of_mem hn' (h.mem_iff.mp hv)
  · exact h.mem_iff.mpr (mem_of_get? hv)

theorem reorders_of_perm (hn : o.keys.Nodup) (h : o.Perm o') : (Value.object o).Reorders (.object o') :=
  .object rfl (Value.reorders_items _) h (get?_perm hn h)

/-- In reordered objects the same is found. -/
theorem matches_of_reorders (h : (Value.object o).Reorders (.object o')) : Matches o o' := by
  cases h with
  | refl => exact .refl _
  | object hkeys hvalues _ hfirst =>
      intro key
      rw [← hfirst]
      exact (aligned_iff.mpr ⟨hkeys, hvalues⟩).get? key

theorem Alike.without (h : Alike o o') (dropped : List String) : Alike (o.without dropped) (o'.without dropped) :=
  ⟨nodup_keys_without h.nodup, nodup_keys_without h.nodup', h.same.without dropped⟩

/-- Objects with distinct keys in which the same is found are reordered. -/
theorem Alike.reorders (h : Alike o o') : (Value.object o).Reorders (.object o') := by
  obtain ⟨hn, hn', h⟩ := h
  have hvalue : ∀ kv ∈ o, kv.2.Reorders (o'.get kv.1) := fun kv hkv => get_of_mem hn hkv ▸ h.get kv.1
  have hkeys : Object.keys (o.map fun kv => (kv.1, o'.get kv.1)) = o.keys := by
    rw [keys, List.map_map]
    rfl
  have hsorted : (Object.keys (o.map fun kv => (kv.1, o'.get kv.1))).Nodup := hkeys ▸ hn
  have hperm : (o.map fun kv => (kv.1, o'.get kv.1)).Perm o' := by
    refine (List.perm_ext_iff_of_nodup ?_ ?_).mpr fun kv => ?_
    · exact List.Nodup.of_map Prod.fst hsorted
    · exact List.Nodup.of_map Prod.fst hn'
    · constructor
      · intro hkv
        obtain ⟨given, hgiven, rfl⟩ := List.mem_map.mp hkv
        obtain ⟨other, hother, hkey⟩ := List.mem_map.mp (h.mem_keys.mp (List.mem_map_of_mem hgiven))
        rw [← hkey, get_of_mem hn' hother]
        exact hother
      · intro hkv
        obtain ⟨given, hgiven, hkey⟩ := List.mem_map.mp (h.mem_keys.mpr (List.mem_map_of_mem hkv))
        refine List.mem_map.mpr ⟨given, hgiven, ?_⟩
        rw [hkey, get_of_mem hn' hkv]
  refine .object hkeys.symm ?_ hperm (get?_perm hsorted hperm)
  rw [List.map_map, List.forall₂_map_left_iff, List.forall₂_map_right_iff, List.forall₂_same]
  exact hvalue

end Object

namespace Value

variable {v w : Value}

/-! ## Proper values -/

theorem Proper.item {items : List Value} (h : (Value.list items).Proper) (hv : v ∈ items) : v.Proper := by
  induction items with
  | nil => cases hv
  | cons item items ih =>
      rcases List.mem_cons.mp hv with rfl | hv
      · exact h.1
      · exact ih h.2 hv

theorem Proper.keys {o : Object} (h : (Value.object o).Proper) : o.keys.Nodup := h.1

theorem properMembers_iff {o : Object} : ProperMembers o ↔ ∀ kv ∈ o, kv.2.Proper := by
  induction o with
  | nil => exact ⟨fun _ _ hkv => (nomatch hkv), fun _ => trivial⟩
  | cons kv o ih => rw [ProperMembers, ih, List.forall_mem_cons]

theorem Proper.get {o : Object} (h : (Value.object o).Proper) (key : String) : (o.get key).Proper := by
  by_cases hnull : o.get key = .null
  · rw [hnull]
    trivial
  · exact properMembers_iff.mp h.2 _ (Object.mem_of_get_ne_null hnull)

theorem Proper.without {o : Object} (h : (Value.object o).Proper) (dropped : List String) :
    (Value.object (o.without dropped)).Proper :=
  ⟨Object.nodup_keys_without h.1,
    properMembers_iff.mpr fun kv hkv => properMembers_iff.mp h.2 kv (Object.mem_of_mem_without hkv)⟩

/-- Proper values that are equal but for the order of members. -/
structure Rearranges (v w : Value) : Prop where
  reorders : v.Reorders w
  proper : v.Proper
  proper' : w.Proper

theorem Rearranges.items {vs ws : List Value} (h : (Value.list vs).Rearranges (.list ws)) :
    List.Forall₂ Rearranges vs ws := by
  have hitems : List.Forall₂ Reorders vs ws := h.reorders.asItems
  refine (List.forall₂_iff_zip.mpr ⟨hitems.length_eq, fun {v w} hvw => ?_⟩)
  exact ⟨List.forall₂_zip hitems hvw, h.proper.item (List.of_mem_zip hvw).1, h.proper'.item (List.of_mem_zip hvw).2⟩

variable {o o' : Object}

theorem Rearranges.alike (h : (Value.object o).Rearranges (.object o')) : Object.Alike o o' :=
  ⟨h.proper.keys, h.proper'.keys, Object.matches_of_reorders h.reorders⟩

theorem Rearranges.get (h : (Value.object o).Rearranges (.object o')) (key : String) :
    (o.get key).Rearranges (o'.get key) :=
  ⟨h.alike.same.get key, h.proper.get key, h.proper'.get key⟩

theorem Rearranges.without (h : (Value.object o).Rearranges (.object o')) (dropped : List String) :
    (Value.object (o.without dropped)).Rearranges (.object (o'.without dropped)) :=
  ⟨(h.alike.without dropped).reorders, h.proper.without dropped, h.proper'.without dropped⟩

/-! ## Comparison -/

theorem sameMembers_eq_all (o o' : Object) :
    sameMembers o o' = o.all fun kv => (Object.get? kv.1 o').any kv.2.same := by
  induction o with
  | nil => rfl
  | cons kv o ih =>
      obtain ⟨k, v⟩ := kv
      rw [sameMembers, List.all_cons, ih]
      cases Object.get? k o' with
      | none => rfl
      | some w => rfl

theorem sameItems_reorders {vs ws : List Value} (h : List.Forall₂ Reorders vs ws)
    (ih : ∀ v ∈ vs, ∀ w, v.Reorders w → ∀ u, v.same u = w.same u) (us : List Value) :
    sameItems vs us = sameItems ws us := by
  induction h generalizing us with
  | nil => rfl
  | cons hvw _ ihrest =>
      cases us with
      | nil => rfl
      | cons u us =>
          rw [sameItems, sameItems, ih _ List.mem_cons_self _ hvw,
            ihrest fun v hv => ih v (List.mem_cons_of_mem _ hv)]

theorem sameMembers_aligned {o o' : Object} (h : Object.Aligned o o')
    (ih : ∀ kv ∈ o, ∀ w, kv.2.Reorders w → ∀ u, kv.2.same u = w.same u) (members : Object) :
    sameMembers o members = sameMembers o' members := by
  induction h with
  | nil => rfl
  | @cons kv kv' _ _ hkv _ ihrest =>
      obtain ⟨k, v⟩ := kv
      obtain ⟨k', v'⟩ := kv'
      obtain ⟨rfl, hv⟩ : k = k' ∧ v.Reorders v' := hkv
      rw [sameMembers, sameMembers, ihrest fun kv hkv => ih kv (List.mem_cons_of_mem _ hkv)]
      congr 1
      cases Object.get? k members with
      | none => rfl
      | some w => exact ih _ List.mem_cons_self _ hv w

theorem Reorders.same : {v w : Value} → v.Reorders w → ∀ u, v.same u = w.same u := by
  intro v
  induction v using Value.induct with
  | step v ih =>
      intro w h u
      cases h with
      | refl => rfl
      | list hitems =>
          cases u with
          | list us =>
              rw [Value.same, Value.same]
              exact sameItems_reorders hitems (fun v hv w hw => ih v (sizeOf_item hv) hw) us
          | _ => simp only [Value.same, worth?]
      | @object o o' sorted hkeys hvalues hperm _ =>
          cases u with
          | object members =>
              have haligned := Object.aligned_iff.mpr ⟨hkeys, hvalues⟩
              have hlength : o.length = o'.length := haligned.length_eq.trans hperm.length_eq
              rw [Value.same, Value.same, hlength]
              congr 1
              have hsame := sameMembers_aligned haligned fun kv hkv w hw =>
                ih kv.2 (sizeOf_member (show (kv.1, kv.2) ∈ o from hkv)) hw
              rw [hsame, sameMembers_eq_all, sameMembers_eq_all, hperm.all_eq]
          | _ => simp only [Value.same, worth?]

end Value

end RecordGraph
