import RecordGraph.Proofs.Hook.Spots

/-!
# The log behind a registry

A registry keeps a list for each spot, and each command changes those lists in its own way. What is seen of it is
one log of registrations in the order in which they were made. A chain runs on the log as it is when the chain
starts.
-/

namespace RecordGraph

structure Registration (σ : Type) where
  spot : Spot
  handler : Handler σ

/-- What a registry is told. A hook that is no function is none. -/
inductive Command (σ : Type) where
  | register (stage operation entity : String) (handler : Option (Handler σ))
  | use (stage operation entity : String) (handler : Option (Handler σ))
  | remove (stage operation entity name : String)
  | clear (stage operation entity : Option String)

namespace Registry

variable {σ : Type}

/-- A command that fails leaves the registry as it is. -/
def after (r : Registry σ) : Command σ → Registry σ
  | .register stage operation entity handler => match r.register stage operation entity handler with
    | .ok changed => changed
    | .error _ => r
  | .use stage operation entity handler => match r.use stage operation entity handler with
    | .ok (_, changed) => changed
    | .error _ => r
  | .remove stage operation entity name => (r.remove stage operation entity name).2
  | .clear stage operation entity => r.clear stage operation entity

/-- A new registry after some commands. -/
def told (commands : List (Command σ)) : Registry σ := commands.foldl after {}

end Registry

/-! ## The log -/

namespace Log

variable {σ : Type} {log : List (Registration σ)} {spot target : Spot} {name : String}

def registered (log : List (Registration σ)) (spot : Spot) : List (Handler σ) :=
  (log.filter (·.spot = spot)).map (·.handler)

/-- The hooks for all entities in order, and then those for the entity alone. -/
def handlers (log : List (Registration σ)) (stage operation entity : String) : List (Handler σ) :=
  registered log ⟨stage, operation, Registry.anyEntity⟩
    ++ if entity = Registry.anyEntity then [] else registered log ⟨stage, operation, entity⟩

/-- A hook is logged if it is one, for a stage and an operation that there are. -/
def entry (stage operation entity : String) (handler : Option (Handler σ)) : List (Registration σ) :=
  if stage ∈ Registry.stages ∧ operation ∈ Registry.operations then
    handler.toList.map (⟨⟨stage, operation, entity⟩, ·⟩)
  else []

def after (log : List (Registration σ)) : Command σ → List (Registration σ)
  | .register stage operation entity handler | .use stage operation entity handler =>
    log ++ entry stage operation entity handler
  | .remove stage operation entity name =>
    log.eraseP fun g => g.spot = ⟨stage, operation, entity⟩ && g.handler.name == name
  | .clear stage operation entity =>
    log.filter fun g => !g.spot.isMatch stage operation entity

def told (commands : List (Command σ)) : List (Registration σ) := commands.foldl after []

theorem registered_append {more : List (Registration σ)} :
    registered (log ++ more) spot = registered log spot ++ registered more spot := by
  simp [registered]

theorem registered_eraseP : registered (log.eraseP fun g => g.spot = target && g.handler.name == name) spot =
    if spot = target then (registered log spot).eraseP (·.name == name) else registered log spot := by
  induction log with
  | nil => simp [registered]
  | cons g log ih =>
      unfold registered at *
      by_cases hg : g.spot = target
      · subst hg
        by_cases hname : g.handler.name = name <;> by_cases hspot : spot = g.spot
        · subst hspot
          simp [hname]
        · simp [hname, hspot, Ne.symm hspot]
        · subst hspot
          simp [hname, ih]
        · simp [hname, hspot, Ne.symm hspot, ih]
      · by_cases hspot : g.spot = spot
        · subst hspot
          simp [hg, ih]
        · simp [hg, hspot, ih]

theorem registered_filter (keep : Spot → Bool) :
    registered (log.filter fun g => keep g.spot) spot = if keep spot then registered log spot else [] := by
  induction log with
  | nil => simp [registered]
  | cons g log ih =>
      unfold registered at *
      by_cases hspot : g.spot = spot
      · subst hspot
        cases hkeep : keep g.spot <;> simp_all
      · cases hkeep : keep g.spot <;> simpa [hkeep, hspot] using ih

end Log

/-! ## The registry tells its log -/

namespace Registry

variable {σ : Type} {r : Registry σ} {log : List (Registration σ)}

def Tells (r : Registry σ) (log : List (Registration σ)) : Prop :=
  ∀ spot, (r.entries.lookup spot).getD [] = Log.registered log spot

theorem Tells.own (h : r.Tells log) {stage operation entity : String} :
    r.own stage operation entity = Log.registered log ⟨stage, operation, entity⟩ :=
  h _

theorem Tells.register (h : r.Tells log) (stage operation entity : String) (handler : Option (Handler σ)) :
    (r.after (.register stage operation entity handler)).Tells (log ++ Log.entry stage operation entity handler) := by
  have hkept : r.Tells (log ++ []) := by rwa [List.append_nil]
  unfold after Registry.register Log.entry
  by_cases hs : stage ∈ stages
  · by_cases ho : operation ∈ operations
    · cases handler with
      | none => simpa [hs, ho] using hkept
      | some g =>
          simp only [List.contains_iff_mem.mpr hs, List.contains_iff_mem.mpr ho, hs, ho, Bool.not_true,
            Bool.false_eq_true, if_false, and_self, if_true, Option.toList_some, List.map_cons, List.map_nil]
          intro spot
          rw [lookup_append, h spot, Log.registered_append]
          by_cases hspot : spot = ⟨stage, operation, entity⟩ <;> simp [Log.registered, hspot, Ne.symm, eq_comm]
    · simpa [hs, ho] using hkept
  · simpa [hs] using hkept

theorem after_use (stage operation entity : String) (handler : Option (Handler σ)) :
    r.after (.use stage operation entity handler) = r.after (.register stage operation entity handler) := by
  simp only [after, use]
  cases r.register stage operation entity handler <;> rfl

/-- A hook is removed if the log has it, and then the first of it. -/
theorem Tells.remove (h : r.Tells log) (stage operation entity name : String) :
    (r.after (.remove stage operation entity name)).Tells (Log.after log (.remove stage operation entity name)) := by
  intro spot
  simp only [after, Registry.remove, Log.after, Log.registered_eraseP]
  split
  · rw [lookup_mapped (f := fun here hs => if here = ⟨stage, operation, entity⟩ then hs.eraseP (·.name == name) else hs)
      (by simp), h spot]
  · rename_i hnone
    rw [h spot]
    split
    · rename_i hspot
      subst hspot
      rw [h.own] at hnone
      rw [List.eraseP_of_forall_not]
      intro g hg hname
      exact hnone (List.any_eq_true.mpr ⟨g, hg, hname⟩)
    · rfl

theorem Tells.clear (h : r.Tells log) (stage operation entity : Option String) :
    (r.after (.clear stage operation entity)).Tells (Log.after log (.clear stage operation entity)) := by
  intro spot
  simp only [after, Registry.clear, Log.after]
  rw [Log.registered_filter fun spot => !spot.isMatch stage operation entity]
  split
  · rename_i hall
    simp only [Bool.and_eq_true, Option.isNone_iff_eq_none] at hall
    obtain ⟨⟨rfl, rfl⟩, rfl⟩ := hall
    rfl
  · rw [← h spot]
    exact lookup_kept fun spot => !spot.isMatch stage operation entity

theorem Tells.after (h : r.Tells log) (command : Command σ) : (r.after command).Tells (Log.after log command) := by
  cases command with
  | register stage operation entity handler => exact h.register stage operation entity handler
  | use stage operation entity handler =>
      rw [after_use]
      exact h.register stage operation entity handler
  | remove stage operation entity name => exact h.remove stage operation entity name
  | clear stage operation entity => exact h.clear stage operation entity

theorem tells_told (commands : List (Command σ)) : (told commands).Tells (Log.told commands) := by
  have hrun (r : Registry σ) (log : List (Registration σ)) (h : r.Tells log) :
      (commands.foldl Registry.after r).Tells (commands.foldl Log.after log) := by
    induction commands generalizing r log with
    | nil => exact h
    | cons command commands ih => exact ih _ _ (h.after command)
  exact hrun {} [] fun _ => rfl

theorem Tells.handlers (h : r.Tells log) (stage operation entity : String) :
    r.handlers stage operation entity = Log.handlers log stage operation entity := by
  simp only [Registry.handlers, Log.handlers, h.own]

/-! ## Chains -/

/-- Hooks that run one after the other, each on the context that the one before left or returned, with how this
ends. None but the last one fails or leaves an abort. -/
inductive Ran : List (Handler σ) → HookContext → σ → Except Failure HookContext × σ → Prop
  | none (c : HookContext) (s : σ) : Ran [] c s (.ok c, s)
  | failed {h : Handler σ} {c : HookContext} {s t : σ} {failure : Failure}
      (hcall : (h.call c).runOn s = (.error failure, t)) : Ran [h] c s (.error failure, t)
  | aborted {h : Handler σ} {c left : HookContext} {returned : Option HookContext} {s t : σ}
      (hcall : (h.call c).runOn s = (.ok (left, returned), t))
      (habort : (returned.getD left).abort.isPresent = true) : Ran [h] c s (.ok (returned.getD left), t)
  | next {h : Handler σ} {hs : List (Handler σ)} {c left : HookContext} {returned : Option HookContext} {s t : σ}
      {out : Except Failure HookContext × σ} (hcall : (h.call c).runOn s = (.ok (left, returned), t))
      (hgoes : (returned.getD left).abort.isPresent = false)
      (hrest : Ran hs (returned.getD left) t out) : Ran (h :: hs) c s out

/-- What ends a chain before its last hook. -/
def Stopped : Except Failure HookContext → Prop
  | .ok c => c.abort.isPresent = true
  | .error _ => True

variable {c : HookContext} {s : σ}

theorem run_error {h : Handler σ} {failure : Failure} {t : σ} (hcall : (h.call c).runOn s = (.error failure, t)) :
    (h.run c).runOn s = (.error failure, t) :=
  Act.runOn_bind_error hcall

theorem run_ok {h : Handler σ} {left : HookContext} {returned : Option HookContext} {t : σ}
    (hcall : (h.call c).runOn s = (.ok (left, returned), t)) : (h.run c).runOn s = (.ok (returned.getD left), t) :=
  Act.runOn_bind_of hcall

/-- A chain runs the hooks up to the first one that stops it. -/
theorem runChain_ran (hs : List (Handler σ)) : ∃ ran rest, hs = ran ++ rest ∧
    Ran ran c s ((runChain hs c).runOn s) ∧ (rest ≠ [] → ran ≠ [] ∧ Stopped ((runChain hs c).runOn s).1) := by
  induction hs generalizing c s with
  | nil => exact ⟨[], [], rfl, .none c s, fun hne => absurd rfl hne⟩
  | cons h hs ih =>
      rw [runChain]
      rcases hcall : (h.call c).runOn s with ⟨failure | ⟨left, returned⟩, t⟩
      · rw [Act.runOn_bind_error (run_error hcall)]
        exact ⟨[h], hs, rfl, .failed hcall, fun _ => ⟨by simp, trivial⟩⟩
      · rw [Act.runOn_bind_of (run_ok hcall)]
        split
        · rename_i habort
          exact ⟨[h], hs, rfl, .aborted hcall habort, fun _ => ⟨by simp, habort⟩⟩
        · rename_i hgoes
          obtain ⟨ran, rest, rfl, hran, hstop⟩ := ih (c := returned.getD left) (s := t)
          exact ⟨h :: ran, rest, rfl, .next hcall (by simpa using hgoes) hran, fun hne => ⟨by simp, (hstop hne).2⟩⟩

/-- The state holds what a registry was told so far, and the hooks may tell it more: a chain runs on the log of what
it was told when the chain starts. -/
theorem told_log (commands : List (Command σ)) (heard : σ → List (Command σ)) (stage operation : String) :
    (∀ entity, (told commands).handlers stage operation entity =
      Log.handlers (Log.told commands) stage operation entity) ∧
    ∀ c s, let out := ((do (told (heard (← get))).execute stage operation c) : Act σ HookContext).runOn s
      ∃ ran rest, Log.handlers (Log.told (heard s)) stage operation c.entity = ran ++ rest ∧
        Ran ran c s out ∧ (rest ≠ [] → ran ≠ [] ∧ Stopped out.1) := by
  constructor
  · intro entity
    exact (tells_told commands).handlers stage operation entity
  · intro c s
    have hrun : ((do (told (heard (← get))).execute stage operation c) : Act σ HookContext).runOn s =
        (runChain (Log.handlers (Log.told (heard s)) stage operation c.entity) c).runOn s := by
      rw [← (tells_told (heard s)).handlers]
      rfl
    simp only [hrun]
    exact runChain_ran _

/-! A hook that registers itself once more runs as often as it was registered when the chain started. -/

def growing : Handler Nat := .leaving "growing" fun c => do
  modify (· + 1)
  return c

example : ((do
    let registry := told (List.replicate (← get) (.register "before" "create" anyEntity (some growing)))
    registry.execute "before" "create" { entity := "Post", operation := "create", stage := "before" } :
      Act Nat HookContext).runOn 3).2 = 6 := by
  rfl

end Registry

end RecordGraph
