import Mathlib.Logic.Basic
import RecordGraph.Value.Basic

/-!
# Members of objects

Which members an object has after some of them were set, erased or left out. The keys of an object
that was built by setting members are distinct.
-/

namespace RecordGraph.Object

variable {o more : Object} {kv : String × Value} {key other : String} {v w : Value}

/-! ## Looking up -/

theorem mem_of_get? (h : get? key o = some v) : (key, v) ∈ o := by
  induction o with
  | nil => simp [get?] at h
  | cons kv rest ih =>
      obtain ⟨k, w⟩ := kv
      by_cases hk : k = key
      · simp only [get?, hk, ↓reduceIte, Option.some.injEq] at h
        rw [hk, h]; simp
      · simp only [get?, hk, ↓reduceIte] at h
        exact List.mem_cons_of_mem _ (ih h)

theorem get?_of_mem (hn : o.keys.Nodup) (h : (key, v) ∈ o) : get? key o = some v := by
  induction o with
  | nil => simp at h
  | cons kv rest ih =>
      obtain ⟨k, w⟩ := kv
      simp only [keys, List.map_cons, List.nodup_cons] at hn
      rcases List.mem_cons.mp h with he | hr
      · cases he; simp [get?]
      · have hk : k ≠ key := by
          rintro rfl
          exact hn.1 (List.mem_map.mpr ⟨_, hr, rfl⟩)
        simp only [get?, hk, ↓reduceIte]
        exact ih hn.2 hr

theorem get_of_mem (hn : o.keys.Nodup) (h : kv ∈ o) : o.get kv.1 = kv.2 := by
  rw [get, get?_of_mem hn h]
  rfl

theorem get?_eq_none_iff : get? key o = none ↔ key ∉ o.keys := by
  induction o with
  | nil => simp [get?, keys]
  | cons kv rest ih =>
      obtain ⟨k, w⟩ := kv
      by_cases hk : k = key
      · simp [get?, keys, hk]
      · have hk' : key ≠ k := fun he => hk he.symm
        simpa [get?, keys, hk, hk'] using ih

/-- With distinct keys, a key has one value. -/
theorem value_unique (hn : o.keys.Nodup) (hv : (key, v) ∈ o) (hw : (key, w) ∈ o) : v = w := by
  have hget := get?_of_mem hn hv
  rw [get?_of_mem hn hw] at hget
  exact (Option.some.inj hget).symm

/-- What all members of a key agree on is what is found under the key. -/
theorem get?_eq_of_members {found : Option Value} (hall : ∀ x, (key, x) ∈ o → found = some x)
    (hin : ∀ x, found = some x → (key, x) ∈ o) : get? key o = found := by
  cases hg : get? key o with
  | some x => exact (hall x (mem_of_get? hg)).symm
  | none =>
      cases found with
      | none => rfl
      | some x => exact absurd (List.mem_map.mpr ⟨_, hin x rfl, rfl⟩) (get?_eq_none_iff.mp hg)

theorem get?_filter (test : String → Bool) (h : test key = true) :
    get? key (o.filter fun kv => test kv.1) = get? key o := by
  induction o with
  | nil => rfl
  | cons kv rest ih =>
      obtain ⟨k, v⟩ := kv
      by_cases hk : k = key
      · subst hk; simp [h, get?]
      · by_cases ht : test k = true <;> simp [ht, get?, hk, ih]

theorem get?_filter_of_not (test : String → Bool) (h : test key = false) :
    get? key (o.filter fun kv => test kv.1) = none := by
  rw [get?_eq_none_iff]
  intro hk
  obtain ⟨kv, hkv, rfl⟩ := List.mem_map.mp hk
  rw [(List.mem_filter.mp hkv).2] at h
  cases h

theorem get?_append : get? key (o ++ more) = (get? key o).or (get? key more) := by
  induction o with
  | nil => rfl
  | cons kv rest ih =>
      obtain ⟨k, v⟩ := kv
      by_cases hk : k = key <;> simp [get?, hk, ih]

theorem mem_of_get_ne_null (h : o.get key ≠ .null) : (key, o.get key) ∈ o := by
  unfold Object.get at h ⊢
  cases hg : get? key o with
  | none => simp [hg] at h
  | some v => exact mem_of_get? hg

theorem get_null (h : ∀ v, (key, v) ∈ o → v = .null) : o.get key = .null :=
  Classical.byContradiction fun hne => hne (h _ (mem_of_get_ne_null hne))

theorem get_single (key : String) (v : Value) : get [(key, v)] key = v := by
  simp only [get, get?, ↓reduceIte, Option.getD_some]

/-! ## Setting -/

theorem set_get (h : o.get key ≠ .null) : set key (o.get key) o = o := by
  induction o with
  | nil => exact absurd rfl h
  | cons kv rest ih =>
      obtain ⟨k, v⟩ := kv
      by_cases hk : k = key
      · subst hk
        simp [set, get, get?]
      · simp only [get, get?, if_neg hk] at h
        simpa [set, get, get?, hk] using ih h

theorem mem_set_self : (key, v) ∈ set key v o := mem_of_get? (get?_set_self key v o)

theorem mem_of_mem_set (h : kv ∈ set key v o) : kv = (key, v) ∨ kv ∈ o := by
  induction o with
  | nil => left; simpa [set] using h
  | cons kv' rest ih =>
      obtain ⟨k, w⟩ := kv'
      by_cases hk : k = key
      · simp only [set, hk, ↓reduceIte, List.mem_cons] at h
        rcases h with h | h
        · exact .inl h
        · exact .inr (List.mem_cons_of_mem _ h)
      · simp only [set, hk, ↓reduceIte, List.mem_cons] at h
        rcases h with h | h
        · exact .inr (by simp [h])
        · exact (ih h).imp id (List.mem_cons_of_mem _)

theorem mem_set_of_ne (h : kv ∈ o) (hne : kv.1 ≠ key) : kv ∈ set key v o := by
  induction o with
  | nil => simp at h
  | cons kv' rest ih =>
      obtain ⟨k, w⟩ := kv'
      by_cases hk : k = key
      · simp only [set, hk, ↓reduceIte]
        rcases List.mem_cons.mp h with rfl | h
        · exact absurd hk hne
        · exact List.mem_cons_of_mem _ h
      · simp only [set, hk, ↓reduceIte]
        rcases List.mem_cons.mp h with rfl | h
        · simp
        · exact List.mem_cons_of_mem _ (ih h)

theorem mem_keys_set : other ∈ (set key v o).keys ↔ other = key ∨ other ∈ o.keys := by
  rw [← not_iff_not, ← get?_eq_none_iff]
  by_cases h : key = other
  · subst h; simp [get?_set_self]
  · rw [get?_set_of_ne h, get?_eq_none_iff]
    have h' : other ≠ key := fun he => h he.symm
    simp [h']

theorem nodup_keys_set (hn : o.keys.Nodup) : (set key v o).keys.Nodup := by
  induction o with
  | nil => simp [set, keys]
  | cons kv rest ih =>
      obtain ⟨k, w⟩ := kv
      by_cases hk : k = key
      · simpa [set, hk, keys] using hn
      · have hn' := hn
        simp only [keys, List.map_cons, List.nodup_cons] at hn'
        simp only [set, hk, ↓reduceIte]
        have hr := ih hn'.2
        have hnot : k ∉ (set key v rest).keys := by
          rw [mem_keys_set]; rintro (rfl | h)
          · exact hk rfl
          · exact hn'.1 h
        exact List.nodup_cons.mpr ⟨hnot, hr⟩

theorem count_keys_set (h : other ≠ key) : (set key v o).keys.count other = o.keys.count other := by
  induction o with
  | nil => simp [set, keys, h.symm]
  | cons kv rest ih =>
      obtain ⟨k, w⟩ := kv
      by_cases hk : k = key
      · simp [set, keys, hk]
      · simp only [keys] at ih
        simp only [set, hk, ↓reduceIte, keys, List.map_cons, List.count_cons, ih]

/-- With distinct keys, nothing of the member that was set before is left. -/
theorem eq_or_ne_of_mem_set (hn : o.keys.Nodup) (h : kv ∈ set key v o) :
    kv = (key, v) ∨ kv.1 ≠ key ∧ kv ∈ o := by
  rcases mem_of_mem_set h with he | ho
  · exact .inl he
  · by_cases hk : kv.1 = key
    · obtain ⟨k, w⟩ := kv
      subst hk
      have hget := get?_of_mem (nodup_keys_set hn) h
      rw [get?_set_self, Option.some.injEq] at hget
      exact .inl (by rw [hget])
    · exact .inr ⟨hk, ho⟩

/-! ## Updating -/

theorem mem_of_mem_update (h : kv ∈ update o more) : kv ∈ more ∨ kv ∈ o := by
  induction more generalizing o with
  | nil => exact .inr h
  | cons kv' rest ih =>
      rcases ih h with h | h
      · exact .inl (List.mem_cons_of_mem _ h)
      · rcases mem_of_mem_set h with rfl | h
        · exact .inl (by simp)
        · exact .inr h

theorem mem_update_of_not_mem (h : kv ∈ o) (hne : kv.1 ∉ more.keys) : kv ∈ update o more := by
  induction more generalizing o with
  | nil => exact h
  | cons kv' rest ih =>
      simp only [keys, List.map_cons, List.mem_cons, not_or] at hne
      exact ih (mem_set_of_ne h hne.1) hne.2

/-- What is set with distinct keys is there in the end. -/
theorem mem_update (hn : more.keys.Nodup) (h : kv ∈ more) : kv ∈ update o more := by
  induction more generalizing o with
  | nil => simp at h
  | cons kv' rest ih =>
      simp only [keys, List.map_cons, List.nodup_cons] at hn
      rcases List.mem_cons.mp h with rfl | h
      · show kv ∈ update (set kv.1 kv.2 o) rest
        exact mem_update_of_not_mem mem_set_self hn.1
      · exact ih hn.2 h

theorem get?_update_of_not_mem (hne : key ∉ more.keys) : get? key (update o more) = get? key o := by
  induction more generalizing o with
  | nil => rfl
  | cons kv' rest ih =>
      simp only [keys, List.map_cons, List.mem_cons, not_or] at hne
      rw [update, List.foldl_cons]
      exact (ih hne.2).trans (get?_set_of_ne (fun he => hne.1 he.symm) _ _)

theorem get?_update_of_mem (hn : more.keys.Nodup) (h : (key, v) ∈ more) :
    get? key (update o more) = some v := by
  induction more generalizing o with
  | nil => simp at h
  | cons kv' rest ih =>
      simp only [keys, List.map_cons, List.nodup_cons] at hn
      rcases List.mem_cons.mp h with rfl | h
      · exact (get?_update_of_not_mem hn.1).trans (get?_set_self _ _ _)
      · exact ih hn.2 h

theorem get?_update_of_mem_keys (h : key ∈ more.keys) :
    ∃ v, get? key (update o more) = some v ∧ (key, v) ∈ more := by
  unfold update
  induction more generalizing o with
  | nil => cases h
  | cons kv rest ih =>
      rw [List.foldl_cons]
      by_cases hk : key ∈ Object.keys rest
      · obtain ⟨v, hv, hm⟩ := ih hk
        exact ⟨v, hv, List.mem_cons_of_mem _ hm⟩
      · have he : key = kv.1 := (List.mem_cons.mp h).resolve_right hk
        subst he
        refine ⟨kv.2, ?_, List.mem_cons_self⟩
        exact (get?_update_of_not_mem hk).trans (get?_set_self ..)

theorem nodup_keys_update (hn : o.keys.Nodup) : (update o more).keys.Nodup := by
  induction more generalizing o with
  | nil => exact hn
  | cons kv rest ih => exact ih (nodup_keys_set hn)

theorem mem_keys_update : other ∈ (update o more).keys ↔ other ∈ o.keys ∨ other ∈ more.keys := by
  induction more generalizing o with
  | nil => simp [update, keys]
  | cons kv rest ih =>
      show other ∈ (update (set kv.1 kv.2 o) rest).keys ↔ _
      rw [ih, mem_keys_set]
      simp only [keys, List.map_cons, List.mem_cons]
      rw [or_assoc, or_left_comm]

theorem mem_keys_ofMembers : other ∈ (ofMembers more).keys ↔ other ∈ more.keys := by
  rw [ofMembers, mem_keys_update]
  simp [keys]

theorem nodup_keys_ofMembers : (ofMembers more).keys.Nodup :=
  nodup_keys_update (by simp [keys])

theorem mem_of_mem_ofMembers (h : kv ∈ ofMembers more) : kv ∈ more :=
  (mem_of_mem_update h).elim id (fun h => by simp at h)

/-- An object in which each of some names is set to a value of its own. -/
theorem get?_ofMembers_map {names : List String} {values : String → Value} :
    get? key (ofMembers (names.map fun name => (name, values name))) = if key ∈ names then some (values key) else none := by
  have hall : ∀ o, get? key (update o (names.map fun name => (name, values name))) =
      if key ∈ names then some (values key) else get? key o := by
    induction names with
    | nil => intro o; rfl
    | cons name rest ih =>
        intro o
        have hs := ih (set name (values name) o)
        rw [List.map_cons]
        show get? key (update (set name (values name) o) (rest.map fun name => (name, values name))) = _
        rw [hs]
        by_cases hr : key ∈ rest
        · simp [hr]
        · by_cases hk : key = name
          · subst hk; simp [hr, get?_set_self]
          · simp [hr, hk, get?_set_of_ne fun he => hk he.symm]
  exact hall []

/-! ## Leaving out -/

theorem mem_of_mem_erase (h : kv ∈ erase key o) : kv ∈ o := by
  induction o with
  | nil => simp [erase] at h
  | cons kv' rest ih =>
      obtain ⟨k, w⟩ := kv'
      by_cases hk : k = key
      · simp only [erase, hk, ↓reduceIte] at h
        exact List.mem_cons_of_mem _ h
      · simp only [erase, hk, ↓reduceIte, List.mem_cons] at h
        rcases h with h | h
        · simp [h]
        · exact List.mem_cons_of_mem _ (ih h)

theorem erase_sublist (key : String) (o : Object) : List.Sublist (erase key o) o := by
  induction o with
  | nil => exact List.Sublist.slnil
  | cons kv rest ih =>
      by_cases hk : kv.1 = key
      · simp only [erase, hk, ↓reduceIte]
        exact List.sublist_cons_self kv rest
      · simp only [erase, hk, ↓reduceIte]
        exact ih.cons_cons kv

theorem keys_erase (key : String) (o : Object) : (erase key o).keys = o.keys.erase key := by
  induction o with
  | nil => rfl
  | cons kv rest ih =>
      simp only [keys] at ih ⊢
      by_cases hk : kv.1 = key
      · simp [erase, hk]
      · simp [erase, hk, ih]

theorem nodup_keys_erase (hn : o.keys.Nodup) : (erase key o).keys.Nodup :=
  hn.sublist ((erase_sublist key o).map Prod.fst)

/-- With distinct keys, nothing of an erased member is left. -/
theorem ne_of_mem_erase (hn : o.keys.Nodup) (h : kv ∈ erase key o) : kv.1 ≠ key := by
  induction o with
  | nil => cases h
  | cons kv' rest ih =>
      simp only [keys, List.map_cons, List.nodup_cons] at hn
      by_cases hk : kv'.1 = key
      · simp only [erase, hk, ↓reduceIte] at h
        rintro rfl
        exact hn.1 (hk ▸ List.mem_map_of_mem h)
      · simp only [erase, hk, ↓reduceIte] at h
        rcases List.mem_cons.mp h with rfl | h
        · exact hk
        · exact ih hn.2 h

theorem get?_erase_of_ne (h : key ≠ other) (o : Object) :
    get? other (erase key o) = get? other o := by
  induction o with
  | nil => rfl
  | cons kv rest ih =>
      obtain ⟨k, v⟩ := kv
      by_cases hk : k = key
      · subst hk
        simp only [erase, get?, ↓reduceIte, h]
      · simp only [erase, get?, hk, ↓reduceIte, ih]

/-- Null members can as well be missing. -/
theorem get_erase_null (h : ∀ v, (key, v) ∈ o → v = .null) (other : String) :
    (erase key o).get other = o.get other := by
  by_cases hk : key = other
  · subst hk
    rw [get_null h, get_null fun v hv => h v (mem_of_mem_erase hv)]
  · rw [get, get, get?_erase_of_ne hk]

theorem mem_without_iff {dropped : List String} :
    kv ∈ o.without dropped ↔ kv ∈ o ∧ kv.1 ∉ dropped := by
  simp [without]

theorem mem_of_mem_without {dropped : List String} (h : kv ∈ o.without dropped) : kv ∈ o :=
  (mem_without_iff.mp h).1

theorem get?_without {dropped : List String} (h : key ∉ dropped) : get? key (o.without dropped) = get? key o :=
  get?_filter (fun k => !dropped.contains k) (by simpa using h)

theorem get?_without_of_mem {dropped : List String} (h : key ∈ dropped) : get? key (o.without dropped) = none :=
  get?_filter_of_not (fun k => !dropped.contains k) (by simpa using h)

theorem nodup_keys_without {dropped : List String} (hn : o.keys.Nodup) : (o.without dropped).keys.Nodup :=
  hn.sublist (List.filter_sublist.map Prod.fst)

theorem without_without {dropped also : List String} :
    (o.without dropped).without also = o.without (dropped ++ also) := by
  simp only [without, List.filter_filter]
  congr 1
  funext kv
  simp [Bool.and_comm]

end RecordGraph.Object
