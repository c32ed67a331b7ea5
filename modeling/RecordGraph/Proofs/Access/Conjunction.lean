import RecordGraph.Proofs.Access.Merge

/-!
# Merging is conjunction

A merged filter is satisfied by the rows that satisfy both the filter and the guard. The one
exception are conditions on one key that are equal by their worth but are not read alike: of these
the guard's own is kept and the caller's is lost.
-/

namespace RecordGraph.Guard

variable {c : Catalog} {m : Model} {db : Database} {row : Row} {filter guard : Object}

def flat (filter guard : Object) : Object := guard.filter fun kv => !clashes filter kv

def base (filter guard : Object) : Object := Object.update filter (flat filter guard)

theorem merge_eq : merge filter guard =
    if (guard.filter (clashes filter)).isEmpty then base filter guard
    else Object.set "AND" (.list ((Object.get (base filter guard) "AND").asItems
      ++ (guard.filter (clashes filter)).map fun kv => .object [kv])) (base filter guard) := rfl

theorem flat_nodup (hn : guard.keys.Nodup) : (Object.keys (flat filter guard)).Nodup :=
  (List.filter_sublist.map _).nodup hn

namespace Conjunctive

variable {P : Value → Prop} {Q : String × Value → Prop} (hr : Conjunctive P Q)

include hr

theorem base (hf : P (.object filter)) (hg : P (.object guard)) : P (.object (base filter guard)) := by
  rw [hr.object] at hf hg ⊢
  intro kv hkv
  rcases Object.mem_of_mem_update hkv with hkv | hkv
  · exact hg kv (List.mem_filter.mp hkv).1
  · exact hf kv hkv

/-- What holds by the filter and by the guard holds by both merged. -/
theorem merged (hf : P (.object filter)) (hg : P (.object guard)) : P (.object (merge filter guard)) := by
  have hbase := hr.base hf hg
  rw [merge_eq]
  split
  · exact hbase
  · rw [hr.object] at hbase hg ⊢
    intro kv hkv
    rcases Object.mem_of_mem_set hkv with rfl | hkv
    · refine hr.and.mpr fun item hi => ?_
      rcases List.mem_append.mp hi with hi | hi
      · have hin : ("AND", Object.get (Guard.base filter guard) "AND") ∈ Guard.base filter guard :=
          Object.mem_of_get_ne_null fun hnull => by rw [hnull] at hi; cases hi
        exact hr.and.mp (hbase _ hin) item hi
      · obtain ⟨kv, hkv, rfl⟩ := List.mem_map.mp hi
        exact hr.object.mpr fun kv' h => by
          rw [List.mem_singleton.mp h]
          exact hg kv (List.mem_filter.mp hkv).1
    · exact hbase kv hkv

theorem of_base (h : P (.object (merge filter guard))) {key : String} {v : Value}
    (hv : Object.get? key (Guard.base filter guard) = some v) : Q (key, v) := by
  have hmem : (key, v) ∈ Guard.base filter guard := Object.mem_of_get? hv
  rw [merge_eq] at h
  split at h
  · exact hr.object.mp h _ hmem
  · by_cases hk : key = "AND"
    · subst hk
      have hall := hr.and.mp (hr.object.mp h _ Object.mem_set_self)
      refine hr.and.mpr fun item hi => hall item (List.mem_append_left _ ?_)
      rwa [Object.get, hv]
    · exact hr.object.mp h _ (Object.mem_set_of_ne hmem hk)

end Conjunctive

/-- A condition of the filter is kept, or a condition of the guard that it equals stands for it. -/
theorem merge_keeps (hn : guard.keys.Nodup) {key : String} {v : Value} (hv : Object.get? key filter = some v) :
    ∃ u, (u = v ∨ (key, u) ∈ guard ∧ v.same u = true) ∧ ∀ {P : Value → Prop} {Q : String × Value → Prop},
      Conjunctive P Q → P (.object (merge filter guard)) → Q (key, u) := by
  by_cases hk : key ∈ Object.keys (flat filter guard)
  · obtain ⟨⟨k, w⟩, hw, he⟩ := List.mem_map.mp hk
    subst he
    obtain ⟨hin, hsame⟩ := List.mem_filter.mp hw
    simp only [clashes, hv, Bool.not_not] at hsame
    exact ⟨w, .inr ⟨hin, hsame⟩, fun hr h => hr.of_base h (Object.get?_update_of_mem (flat_nodup hn) hw)⟩
  · exact ⟨v, .inl rfl, fun hr h => hr.of_base h ((Object.get?_update_of_not_mem hk).trans hv)⟩

namespace Conjunctive

variable {P : Value → Prop} {Q : String × Value → Prop} (hr : Conjunctive P Q)

include hr

theorem of_filter (hn : guard.keys.Nodup) (h : P (.object (merge filter guard)))
    {key : String} {v : Value} (hv : Object.get? key filter = some v) :
    Q (key, v) ∨ ∃ w, (key, w) ∈ guard ∧ v.same w = true ∧ Q (key, w) := by
  obtain ⟨u, rfl | ⟨hin, hsame⟩, hheld⟩ := merge_keeps hn hv
  · exact .inl (hheld hr h)
  · exact .inr ⟨u, hin, hsame, hheld hr h⟩

/-- If conditions that are taken for equal hold alike, merging is conjunction. -/
theorem merge_iff (hf : filter.keys.Nodup) (hg : guard.keys.Nodup)
    (ha : ∀ key v w, (key, v) ∈ filter → (key, w) ∈ guard → v.same w = true → Q (key, w) → Q (key, v)) :
    P (.object (merge filter guard)) ↔ P (.object filter) ∧ P (.object guard) := by
  refine ⟨fun h => ⟨?_, hr.confines hg h⟩, fun h => hr.merged h.1 h.2⟩
  refine hr.object.mpr fun kv hkv => ?_
  obtain ⟨key, v⟩ := kv
  rcases hr.of_filter hg h (Object.get?_of_mem hf hkv) with hv | ⟨w, hw, hsame, hheld⟩
  · exact hv
  · exact ha key v w hkv hw hsame hheld

end Conjunctive

/-- Conditions of the guard that are taken for equal conditions of the filter are read alike. -/
def Alike (c : Catalog) (m : Model) (filter guard : Object) : Prop :=
  ∀ key v w, (key, v) ∈ filter → (key, w) ∈ guard → v.same w = true →
    ∀ db row, c.SatisfiesMember m db row (key, w) → c.SatisfiesMember m db row (key, v)

/-- A merged filter is satisfied by the rows that satisfy both. -/
theorem merge_satisfies_iff (hf : filter.keys.Nodup) (hg : guard.keys.Nodup) (ha : Alike c m filter guard) :
    c.Satisfies m db row (.object (merge filter guard)) ↔
      c.Satisfies m db row (.object filter) ∧ c.Satisfies m db row (.object guard) :=
  conjunctive_satisfies.merge_iff hf hg fun key v w hv hw hsame => ha key v w hv hw hsame db row

end RecordGraph.Guard

/-! ## What conditions require

A condition requires a value under a key if it is satisfied by no row but those with that value. A filter requires the
values of its members, and goes on to do so when it is merged with a guard. -/

namespace RecordGraph

/-- Only rows with a value under a key satisfy a condition: with the given value, or one that is worth the same. -/
def Requires (condition : Value) (key : String) (v : Value) : Prop :=
  ∀ (c : Catalog) (m : Model) (db : Database) (row : Row), c.Satisfies m db row condition →
    ∃ u, (u = v ∨ v.same u = true) ∧ c.SatisfiesMember m db row (key, u)

/-- What a filter requires it requires when it is merged with a guard, too. -/
theorem Guard.merge_requires {filter guard : Object} {key : String} {v : Value} (hn : guard.keys.Nodup)
    (hv : Object.get? key filter = some v) : Requires (.object (merge filter guard)) key v := by
  intro c m db row h
  rcases conjunctive_satisfies.of_filter hn h hv with hmember | ⟨u, _, hsame, hmember⟩
  · exact ⟨v, .inl rfl, hmember⟩
  · exact ⟨u, .inr hsame, hmember⟩

theorem Value.same_text_iff {s : String} {u : Value} : (Value.text s).same u = true ↔ u = .text s := by
  cases u with
  | text t =>
      rw [same, beq_iff_eq, text.injEq]
      exact eq_comm
  | _ => simp [same, worth?]

end RecordGraph
