import RecordGraph.Operation.Engine
import RecordGraph.Proofs.Hook.Spots
import RecordGraph.Proofs.Operation.Running

/-!
# Chains of hooks

What every hook of a chain keeps is kept by the chain, and so holds of the context that an operation
goes on with.
-/

namespace RecordGraph

namespace Registry

variable {σ : Type} {r : Registry σ} {stage operation entity : String} {P : HookContext → Prop} {c c' : HookContext}
  {s s' : σ}

/-- Every hook of a chain keeps a property of contexts. -/
def Keeps (r : Registry σ) (stage operation entity : String) (P : HookContext → Prop) : Prop :=
  ∀ h ∈ r.handlers stage operation entity, ∀ c s c' s', P c → (h.run c).runOn s = (.ok c', s') → P c'

theorem runChain_keeps {hs : List (Handler σ)}
    (hk : ∀ h ∈ hs, ∀ c s c' s', P c → (h.run c).runOn s = (.ok c', s') → P c') (hc : P c)
    (h : (runChain hs c).runOn s = (.ok c', s')) : P c' := by
  induction hs generalizing c s with
  | nil =>
      obtain ⟨rfl, _⟩ := Act.runOn_pure_ok_iff.mp h
      exact hc
  | cons first rest ih =>
      obtain ⟨c₁, s₁, hrun, h⟩ := Act.runOn_bind_ok_iff.mp h
      have hc₁ : P c₁ := hk first List.mem_cons_self c s c₁ s₁ hc hrun
      split at h
      · obtain ⟨rfl, _⟩ := Act.runOn_pure_ok_iff.mp h
        exact hc₁
      · exact ih (fun g hg => hk g (List.mem_cons_of_mem _ hg)) hc₁ h

theorem Keeps.execute (hk : r.Keeps stage operation entity P) (he : c.entity = entity) (hc : P c)
    (h : (r.execute stage operation c).runOn s = (.ok c', s')) : P c' := by
  rw [Registry.execute, he] at h
  exact runChain_keeps hk hc h

theorem keeps_none (h : r.entries = []) : r.Keeps stage operation entity P := by
  intro g hg
  simp [handlers_none h] at hg

end Registry

namespace Engine

variable {σ α : Type} {e : Engine σ} {s s' : σ} {payload : Object} {act : Act σ α}

/-- A failure of the storage as an operation tells it. -/
def answered (e : Engine σ) (payload : Object) : Failure → Failure
  | .fault f => .request (e.disclosure.requestError (.fault f) payload)
  | failure => failure

theorem ask_run : (e.ask payload act).runOn s = match act.runOn s with
    | (.ok a, t) => (.ok a, t)
    | (.error failure, t) => (.error (e.answered payload failure), t) := by
  rw [ask, Act.runOn_tryCatch]
  rcases act.runOn s with ⟨failure | a, t⟩
  · cases failure <;> rfl
  · rfl

theorem ask_of {a : α} (h : act.runOn s = (.ok a, s')) : (e.ask payload act).runOn s = (.ok a, s') := by
  rw [ask_run, h]

/-- What the storage answers is what comes through the border. -/
theorem ask_ok {a : α} (h : (e.ask payload act).runOn s = (.ok a, s')) : act.runOn s = (.ok a, s') := by
  rw [ask_run] at h
  rcases hrun : act.runOn s with ⟨failure | b, s₁⟩ <;> rw [hrun] at h
  · cases h
  · exact h

/-- An operation whose last hooks keep its outcome ends with it. -/
theorem concluded {operation entity : String} {user : User} {result : Outcome} {after : HookContext}
    {context : HookContext → HookContext}
    (hk : ∀ o, e.hooks.Keeps "after" operation entity fun c => c.outcome = o)
    (he : (context { entity, operation, stage := "after", user := some user }).entity = entity)
    (hc : (context { entity, operation, stage := "after", user := some user }).outcome = result)
    (h : (e.runHooks "after" operation entity user context).runOn s = (.ok after, s')) :
    after.outcome.orElse result = result := by
  have hkept : after.outcome = result := (hk result).execute he hc h
  rw [hkept, Outcome.orElse]
  split <;> rfl

end Engine

end RecordGraph
