import RecordGraph.Hook.Registry
import RecordGraph.Proofs.Operation.Running

/-!
# Spots of a registry

What a change of the registry does to the list of each spot.
-/

namespace RecordGraph

/-- A hook that returns nothing: the context goes on as it leaves it. -/
def Handler.leaving {σ : Type} (name : String) (run : HookContext → Act σ HookContext) : Handler σ :=
  ⟨name, fun c => do return (← run c, none)⟩

@[simp]
theorem Handler.run_leaving {σ : Type} {name : String} {run : HookContext → Act σ HookContext} {c : HookContext} :
    (Handler.leaving name run).run c = run c := by
  simp [Handler.run, leaving]

namespace Registry

variable {σ τ : Type} {r : Registry σ} {stage operation entity name : String} {spot here : Spot}
  {h : Handler σ} {entries : List (Spot × List (Handler σ))}

theorem handlers_none (h : r.entries = []) : r.handlers stage operation entity = [] := by
  simp [handlers, own, h]

theorem lookup_append : ((append spot h entries).lookup here).getD [] =
    (entries.lookup here).getD [] ++ if here = spot then [h] else [] := by
  induction entries with
  | nil =>
      by_cases heq : here = spot
      · simp [append, heq]
      · simp [append, heq, List.lookup_cons, beq_false_of_ne heq]
  | cons entry rest ih =>
      obtain ⟨first, hs⟩ := entry
      by_cases hfirst : first = spot <;> by_cases hhere : here = first
      · subst hfirst hhere
        simp [append]
      · subst hfirst
        simp [append, List.lookup_cons, beq_false_of_ne hhere, hhere]
      · subst hhere
        simp [append, hfirst]
      · simpa [append, hfirst, List.lookup_cons, beq_false_of_ne hhere] using ih

theorem lookup_mapped {f : Spot → List (Handler σ) → List (Handler τ)} (hf : f here [] = []) :
    ((entries.map fun entry => (entry.1, f entry.1 entry.2)).lookup here).getD [] = f here ((entries.lookup here).getD []) := by
  induction entries with
  | nil => exact hf.symm
  | cons entry rest ih =>
      obtain ⟨first, hs⟩ := entry
      by_cases hhere : here = first
      · subst hhere
        simp
      · simpa [List.lookup_cons, beq_false_of_ne hhere] using ih

theorem lookup_kept (keep : Spot → Bool) :
    ((entries.filter fun entry => keep entry.1).lookup here).getD [] =
      if keep here then (entries.lookup here).getD [] else [] := by
  induction entries with
  | nil => simp
  | cons entry rest ih =>
      obtain ⟨first, hs⟩ := entry
      by_cases hhere : here = first
      · subst hhere
        cases hkeep : keep here <;> simp_all
      · cases hkeep : keep first <;> simpa [hkeep, List.lookup_cons, beq_false_of_ne hhere] using ih

/-- A change of every hook, which may depend on its stage. -/
def map (f : String → Handler σ → Handler τ) (r : Registry σ) : Registry τ :=
  ⟨r.entries.map fun (spot, hs) => (spot, hs.map (f spot.stage))⟩

theorem handlers_map {f : String → Handler σ → Handler τ} :
    (r.map f).handlers stage operation entity = (r.handlers stage operation entity).map (f stage) := by
  have hown (entity : String) : (r.map f).own stage operation entity = (r.own stage operation entity).map (f stage) :=
    lookup_mapped (f := fun spot => List.map (f spot.stage)) rfl
  unfold handlers
  rw [List.map_append, hown, hown]
  split <;> rfl

end Registry

end RecordGraph
