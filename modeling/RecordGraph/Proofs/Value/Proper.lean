import Mathlib.Logic.Basic
import RecordGraph.Value.Basic

/-!
# Proper values

In a proper value no object has two members of one key, at any depth. Items and members are smaller
than the values that they are in.
-/

namespace RecordGraph.Value

/-! ## Smaller values -/

theorem sizeOf_item {items : List Value} {v : Value} (h : v ∈ items) : sizeOf v < sizeOf (Value.list items) := by
  have hlt := List.sizeOf_lt_of_mem h
  simp only [list.sizeOf_spec]
  omega

theorem sizeOf_member {members : Object} {key : String} {v : Value} (h : (key, v) ∈ members) :
    sizeOf v < sizeOf (Value.object members) := by
  have hlt := List.sizeOf_lt_of_mem h
  simp only [Prod.mk.sizeOf_spec] at hlt
  simp only [object.sizeOf_spec]
  omega

theorem sizeOf_asItems {v item : Value} (h : item ∈ v.asItems) : sizeOf item ≤ sizeOf v := by
  cases v with
  | list items => exact Nat.le_of_lt (sizeOf_item h)
  | null => simp [asItems] at h
  | _ => exact Nat.le_of_eq (congrArg sizeOf (List.mem_singleton.mp h))

/-- Induction over all smaller values. -/
theorem induct {P : Value → Prop} (step : ∀ v, (∀ u, sizeOf u < sizeOf v → P u) → P v) (v : Value) : P v :=
  (measure sizeOf).wf.induction v step

/-! ## Distinct keys -/

mutual

def Proper : Value → Prop
  | .list items => ProperItems items
  | .object members => (Object.keys members).Nodup ∧ ProperMembers members
  | _ => True

def ProperItems : List Value → Prop
  | [] => True
  | v :: vs => Proper v ∧ ProperItems vs

def ProperMembers : List (String × Value) → Prop
  | [] => True
  | (_, v) :: rest => Proper v ∧ ProperMembers rest

end

mutual

def decideProper : (v : Value) → Decidable v.Proper
  | .list items => decideProperItems items
  | .object members => @instDecidableAnd _ _ inferInstance (decideProperMembers members)
  | .null | .bool _ | .int _ | .float _ | .decimal _ | .date _ | .datetime _ | .text _ => isTrue trivial

def decideProperItems : (items : List Value) → Decidable (ProperItems items)
  | [] => isTrue trivial
  | v :: vs => @instDecidableAnd _ _ (decideProper v) (decideProperItems vs)

def decideProperMembers : (members : List (String × Value)) → Decidable (ProperMembers members)
  | [] => isTrue trivial
  | (_, v) :: rest => @instDecidableAnd _ _ (decideProper v) (decideProperMembers rest)

end

instance : DecidablePred Proper := decideProper

end RecordGraph.Value
