import RecordGraph.Proofs.Access.Conjunction
import RecordGraph.Proofs.Mutation.Lists
import RecordGraph.Proofs.Mutation.Outcome

/-!
# The rows that items are looked up by

An item of a list relation is looked up by its key. The row of a join table is looked up by its whole key under one
name: the parent stands in it as the back-reference, unless the item names the back-reference itself.
-/

namespace RecordGraph

/-- A condition is only satisfied by rows with the key of an item. Keys are scalars: what is made of a relation that is
given among them is not told here. -/
def Finds (r : Relation) (e : Entity) (joinKey : Option (List String)) (parent : Value) (item : Object)
    (condition : Value) : Prop :=
  match joinKey with
  | none => ∀ k ∈ e.keys, e.relation? k = none → ∃ v, Object.get? k item = some v ∧ Requires condition k v
  | some names => ∃ whole, Requires condition (joinTexts "_" names) (.object whole) ∧
      ∀ n ∈ names, e.relation? n = none ∨ n ∉ item.keys → Object.get? n whole =
        (Object.get? n item).or (if n = r.references.headD "" then some parent else none)

/-- A condition requires the whole key of a join table, with the parent in it as the back-reference. -/
def StaysUnder (r : Relation) (names : List String) (parent condition : Value) : Prop :=
  ∃ whole, Requires condition (joinTexts "_" names) (.object whole) ∧
    Object.get? (r.references.headD "") whole = some parent

theorem Finds.staysUnder {r : Relation} {e : Entity} {names : List String} {parent condition : Value} {item : Object}
    (h : Finds r e (some names) parent item condition) (hback : r.references.headD "" ∈ names)
    (hno : r.references.headD "" ∉ item.keys) : StaysUnder r names parent condition := by
  obtain ⟨whole, hwhole, hnames⟩ := h
  refine ⟨whole, hwhole, ?_⟩
  rw [hnames _ hback (.inr hno), Object.get?_eq_none_iff.mpr hno, if_pos rfl]
  rfl

namespace Writer

variable {w : Writer} {r : Relation} {e : Entity} {entity key : String} {keys : List String}
  {joinKey : Option (List String)} {parent : Value} {item prepared condition guard filter : Object}

theorem keyWhere_get? (h : keyWhere keys item = .ok condition) (hk : key ∈ keys) :
    ∃ v, Object.get? key item = some v ∧ Object.get? key condition = some v := by
  have hrows := mapM_ok_forall₂ h
  obtain ⟨kv, hkv, hfound⟩ := forall₂_partner hrows hk
  have hmember : ∀ kv ∈ condition, Object.get? kv.1 item = some kv.2 := by
    intro kv hkv
    obtain ⟨k, _, hfound⟩ := mem_of_mapM_ok h hkv
    split at hfound
    next v hv => exact pure_ok_iff.mp hfound ▸ hv
    next => cases hfound
  split at hfound
  next v hv =>
    obtain rfl := pure_ok_iff.mp hfound
    refine ⟨v, hv, Object.get?_eq_of_members (fun x hx => ?_) fun x hx => ?_⟩
    · exact hv.symm.trans (hmember _ hx)
    · exact Option.some.inj hx ▸ hkv
  next => cases hfound

/-- The names of a key are found in the item, and the parent where the item does not name it. -/
theorem whole_get? {names : List String} (hk : key ∈ names) :
    Object.get? key (Object.update [(r.references.headD "", parent)]
        (names.filterMap fun n => (Object.get? n item).map (n, ·))) =
      (Object.get? key item).or (if key = r.references.headD "" then some parent else none) := by
  have hown : ∀ {k v}, (k, v) ∈ names.filterMap (fun n => (Object.get? n item).map (n, ·)) →
      Object.get? k item = some v := by
    intro k v hkv
    obtain ⟨n, _, hn⟩ := List.mem_filterMap.mp hkv
    obtain ⟨v', hv', he⟩ := Option.map_eq_some_iff.mp hn
    cases he
    exact hv'
  cases hitem : Object.get? key item with
  | some v =>
      have hin : (key, v) ∈ names.filterMap fun n => (Object.get? n item).map (n, ·) :=
        List.mem_filterMap.mpr ⟨key, hk, by rw [hitem]; rfl⟩
      obtain ⟨v', hv', hmem⟩ := Object.get?_update_of_mem_keys (o := [(r.references.headD "", parent)])
        (List.mem_map_of_mem hin)
      rw [hv', ← hown hmem, hitem]
      rfl
  | none =>
      rw [Object.get?_update_of_not_mem, Object.get?, Object.get?]
      · by_cases hback : r.references.headD "" = key
        · rw [if_pos hback, if_pos hback.symm]
          rfl
        · rw [if_neg hback, if_neg (Ne.symm hback)]
          rfl
      · intro hin
        obtain ⟨kv, hkv, rfl⟩ := List.mem_map.mp hin
        rw [hown hkv] at hitem
        cases hitem

/-- The condition of an item requires its key, whatever it is merged with. -/
theorem itemWhere_finds (hn : guard.keys.Nodup)
    (hkept : ∀ k, e.relation? k = none ∨ k ∉ item.keys → Object.get? k prepared = Object.get? k item)
    (h : itemWhere r e.keys joinKey parent prepared = .ok condition) :
    Finds r e joinKey parent item (.object (Guard.merge condition guard)) := by
  cases joinKey with
  | none =>
      intro k hk hplain
      obtain ⟨v, hv, hc⟩ := keyWhere_get? h hk
      exact ⟨v, hkept k (.inl hplain) ▸ hv, Guard.merge_requires hn hc⟩
  | some names =>
      obtain rfl := pure_ok_iff.mp h
      refine ⟨_, Guard.merge_requires hn (by rw [Object.get?, if_pos rfl]), fun n hn hplain => ?_⟩
      rw [whole_get? hn, hkept n hplain]

section
variable {levels : Nat} {above : Value} (he : w.view.schema.entity entity = .ok e)
  (h : w.updateItem (w.updateNested levels above) entity item = .ok prepared)
include he h

theorem updateItem_keys : ∀ key ∈ prepared.keys, key ∈ item.keys := by
  have hn : UpdateNesting.Turns (fun _ _ _ => True) (w.updateNested levels above) :=
    updateNested_turns (fun _ _ _ _ _ => trivial) levels (.inl rfl)
  intro key hkey
  obtain ⟨kv, hkv, rfl⟩ := List.mem_map.mp hkey
  exact ((updateItem_drawn hn False.elim he h).member kv hkv).key_mem

/-- What is no relation is left alone while the relations of an item are turned, and so is what is not given. -/
theorem updateItem_keeps (hkey : e.relation? key = none ∨ key ∉ item.keys) :
    Object.get? key prepared = Object.get? key item := by
  rcases hkey with hplain | hno
  · obtain ⟨f, h, hf⟩ := updateItem_acts he h
    exact keeps_of_members (Entity.relationRole_of_none hplain)
      (fun _ _ _ hr => absurd hr Entity.not_foreign_relationRole) hf h
  · rw [Object.get?_eq_none_iff.mpr hno, Object.get?_eq_none_iff]
    exact fun hin => hno (updateItem_keys he h key hin)

end

end Writer

end RecordGraph
