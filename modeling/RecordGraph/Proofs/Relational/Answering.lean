import RecordGraph.Proofs.Access.Merge
import RecordGraph.Proofs.Relational.Keys
import RecordGraph.Proofs.Relational.Storable

/-!
# Filters that a storage answers

A filter is answered if it is read and its operands are handed to the engine, or if the storage says why
not. Equality with a value that can be stored is answered, and so is a filter that was joined to a guard
if both are.
-/

namespace RecordGraph

/-! ## Operands -/

namespace Condition

/-- Each operand is handed to the engine, or it says why not. -/
def Bindable (k : Condition) : Prop := ∀ o ∈ k.operands, Handed (fun _ => True) o

theorem bindable_all {ks : List Condition} (h : ∀ k ∈ ks, k.Bindable) : (all ks).Bindable := by
  intro o ho
  rw [operands] at ho
  split at ho
  · cases ho
  · obtain ⟨k, hk, ho⟩ := mem_operandsOf.mp ho
    exact h k hk o ho

theorem bindable_isNull {column : String} : (isNull column).Bindable := fun _ ho => absurd ho List.not_mem_nil

theorem bindable_compare {comparison : Comparison} {column : String} {operand : Except Failure Cell}
    (h : Handed (fun _ => True) operand) : (compare comparison column operand).Bindable :=
  fun _ ho => List.mem_singleton.mp ho ▸ h

theorem Bindable.bind {k : Condition} (h : k.Bindable) : Handed (fun _ => True) k.bind := by
  have hloop : ∀ {os : List (Except Failure Cell)}, (∀ o ∈ os, Handed (fun _ => True) o) →
      Handed (fun _ => True) (forIn os PUnit.unit fun o _ => do
        let _ ← o
        pure (ForInStep.yield PUnit.unit)) := by
    intro os hall
    induction os with
    | nil => trivial
    | cons o os ih =>
        rw [List.forIn_cons]
        have hfirst := hall o List.mem_cons_self
        cases o with
        | error e => exact hfirst
        | ok cell => exact ih fun o ho => hall o (List.mem_cons_of_mem _ ho)
  refine (hloop fun o ho => ?_).bind fun _ _ => trivial
  rcases List.mem_append.mp ho with ho | ho
  · exact h o (List.mem_filter.mp ho).1
  · exact h o ho

end Condition

/-! ## Columns -/

namespace Column

variable {column : Column} {v : Value}

theorem equals_bindable {comparison : Comparison} (hv : v.Fits) : (column.equals v comparison).Bindable := by
  unfold equals
  split
  · exact Condition.bindable_compare trivial
  · exact Condition.bindable_compare ((ColumnKind.kept_handed hv).mono fun _ _ => trivial)

theorem equalTo_handed (h : column.Takes v) : Handed Condition.Bindable (column.equalTo v) := by
  unfold equalTo
  split
  · exact Condition.bindable_isNull
  · exact h.handed.bind fun w hw => equals_bindable hw

/-- A value that a row can be looked up by: it can be stored, and is not read as operators. -/
def Finds (column : Column) (v : Value) : Prop := v.isObject = false ∧ column.Takes v

theorem Finds.handed (h : column.Finds v) : Handed Condition.Bindable (column.condition v) := by
  unfold condition
  split
  · cases h.1
  · exact equalTo_handed h.2

end Column

/-! ## Members -/

namespace Catalog

variable (c : Catalog) (m : Model)

/-- The filter is read and its operands are handed over, or the storage says why not. -/
def Answers (filter : Value) : Prop := Handed Condition.Bindable (c.condition m filter)

def AnswersMember (kv : String × Value) : Prop := Handed Condition.Bindable (c.memberCondition m kv.1 kv.2)

/-- Each part of a guard is answered by itself: its members, and the items of its conjunctions. -/
structure AnswersGuard (guard : Object) : Prop where
  members : ∀ kv ∈ guard, c.AnswersMember m kv
  items : ∀ v, ("AND", v) ∈ guard → ∀ item ∈ v.asItems, c.Answers m item

variable {c m} {key : String} {v : Value} {o filter guard : Object}

theorem answers_object (h : ∀ kv ∈ o, c.AnswersMember m kv) : c.Answers m (.object o) := by
  have hconditions : Handed (fun ks => ∀ k ∈ ks, k.Bindable) (c.conditions m o) := by
    induction o with
    | nil =>
        rw [conditions]
        exact fun _ hk => absurd hk List.not_mem_nil
    | cons kv rest ih =>
        rw [conditions_cons]
        exact (h kv List.mem_cons_self).cons (ih fun kv' hkv' => h kv' (List.mem_cons_of_mem _ hkv'))
  rw [Answers, condition]
  exact hconditions.map fun ks hks => Condition.bindable_all hks

theorem answers_and {items : List Value} (h : ∀ item ∈ items, c.Answers m item) :
    c.AnswersMember m ("AND", .list items) := by
  have hparts : Handed (fun ks => ∀ k ∈ ks, k.Bindable) (c.conditionList m items) := by
    induction items with
    | nil =>
        rw [conditionList]
        exact fun _ hk => absurd hk List.not_mem_nil
    | cons item rest ih =>
        rw [conditionList]
        exact (h item List.mem_cons_self).cons (ih fun item' hitem' => h item' (List.mem_cons_of_mem _ hitem'))
  exact hparts.map fun ks hks => Condition.bindable_all hks

theorem answers_column {column : Column} (hplain : key ∉ ["AND", "OR", "NOT"]) (hlink : m.link? key = none)
    (hcolumn : m.column? key = some column) (h : column.Finds v) : c.AnswersMember m (key, v) := by
  rw [AnswersMember, memberCondition_name hplain, hlink]
  simp only [Model.cellCondition, hcolumn]
  exact h.handed

theorem answers_key (hplain : key ∉ ["AND", "OR", "NOT"]) (hlink : m.link? key = none)
    (hcolumn : m.column? key = none) (hne : o ≠ [])
    (h : ∀ kv ∈ o, ∃ column, m.column? kv.1 = some column ∧ column.Takes kv.2) :
    c.AnswersMember m (key, .object o) := by
  obtain ⟨parts, hkey, hparts⟩ := Model.compoundKey?_some hne fun kv hkv => (h kv hkv).imp fun _ hfound => hfound.1
  have htakes : ∀ part ∈ parts, part.1.Takes part.2 := (hparts fun part => part.1.Takes part.2).mpr h
  rw [AnswersMember, memberCondition_name hplain, hlink]
  simp only [Model.cellCondition, hcolumn, hkey]
  refine Handed.map (Handed.mapM fun part hpart => ?_) fun _ hks => Condition.bindable_all hks
  exact Column.equalTo_handed (htakes part hpart)

/-! ## Guards -/

/-- A guard that is joined to a filter leaves it answered. -/
theorem answers_merged (hf : ∀ kv ∈ filter, kv.1 ≠ "AND" ∧ c.AnswersMember m kv) (hg : c.AnswersGuard m guard) :
    c.Answers m (.object (Guard.merge filter guard)) := by
  have hmerged : ∀ kv ∈ Object.update filter (guard.filter fun kv => !Guard.clashes filter kv),
      (kv ∈ guard ∨ kv.1 ≠ "AND") ∧ c.AnswersMember m kv := by
    intro kv hkv
    rcases Object.mem_of_mem_update hkv with hkv | hkv
    · have hin := (List.mem_filter.mp hkv).1
      exact ⟨.inl hin, hg.members kv hin⟩
    · exact ⟨.inr (hf kv hkv).1, (hf kv hkv).2⟩
  unfold Guard.merge
  dsimp only
  split
  · exact answers_object fun kv hkv => (hmerged kv hkv).2
  · refine answers_object fun kv hkv => ?_
    rcases Object.mem_of_mem_set hkv with rfl | hkv
    · refine answers_and fun item hitem => ?_
      rcases List.mem_append.mp hitem with hitem | hitem
      · have hne : Object.get (Object.update filter (guard.filter fun kv => !Guard.clashes filter kv)) "AND" ≠ .null := by
          intro hnull
          rw [hnull] at hitem
          cases hitem
        have hin := Object.mem_of_get_ne_null hne
        rcases (hmerged _ hin).1 with hguard | hother
        · exact hg.items _ hguard item hitem
        · exact absurd rfl hother
      · obtain ⟨kv, hkv, rfl⟩ := List.mem_map.mp hitem
        refine answers_object fun kv' hkv' => ?_
        rw [List.mem_singleton.mp hkv']
        exact hg.members kv (List.mem_filter.mp hkv).1
    · exact (hmerged kv hkv).2

end Catalog

end RecordGraph
