import RecordGraph.Hook.Context
import RecordGraph.Operation.Act
import RecordGraph.Text.Split

/-!
# Hook registry

Hooks are registered for a stage and an operation, for one entity or for all of them. The chain of
an entity holds the hooks for all entities first and then its own, each in order of registration;
it ends early at a hook that aborts.
-/

namespace RecordGraph

/-- A hook is known by its name. It leaves a context behind, and may return another one in its place. -/
structure Handler (σ : Type) where
  name : String
  call : HookContext → Act σ (HookContext × Option HookContext)

/-- The context that goes on after a hook. -/
def Handler.run {σ : Type} (h : Handler σ) (c : HookContext) : Act σ HookContext := do
  let (left, returned) ← h.call c
  return returned.getD left

structure Spot where
  stage : String
  operation : String
  entity : String
deriving DecidableEq, Repr

/-- A spot matches parts of which some are not given. -/
def Spot.isMatch (spot : Spot) (stage operation entity : Option String) : Bool :=
  stage.all (· == spot.stage) && operation.all (· == spot.operation) && entity.all (· == spot.entity)

/-- Each spot has the hooks that were registered for it, in order. -/
structure Registry (σ : Type) where
  entries : List (Spot × List (Handler σ)) := []

namespace Registry

variable {σ : Type}

def stages : List String := ["before", "after"]

def operations : List String :=
  ["create", "update", "upsert", "upsert_many", "delete", "get", "get_many", "count"]

/-- The entity that stands for all of them. -/
def anyEntity : String := "*"

private def oneOf (names : List String) : String := joinTexts ", " names

/-- A hook at the end of the list of its spot; a spot without one gets a list. -/
def append (spot : Spot) (h : Handler σ) : List (Spot × List (Handler σ)) → List (Spot × List (Handler σ))
  | [] => [(spot, [h])]
  | (here, hs) :: rest => if here = spot then (here, hs ++ [h]) :: rest else (here, hs) :: append spot h rest

def register (r : Registry σ) (stage operation entity : String) (handler : Option (Handler σ)) :
    Except Failure (Registry σ) :=
  if !stages.contains stage then
    .error (.hook ("Invalid hook '" ++ stage ++ "'. Must be one of: " ++ oneOf stages))
  else if !operations.contains operation then
    .error (.hook ("Invalid operation '" ++ operation ++ "'. Must be one of: " ++ oneOf operations))
  else match handler with
  | none => .error (.hook "Middleware must be callable")
  | some h => .ok ⟨append ⟨stage, operation, entity⟩ h r.entries⟩

/-- Registers a hook and gives it back. -/
def use (r : Registry σ) (stage operation entity : String) (handler : Option (Handler σ)) :
    Except Failure (Option (Handler σ) × Registry σ) := do
  return (handler, ← r.register stage operation entity handler)

/-- The hooks registered for exactly this entity. -/
def own (r : Registry σ) (stage operation entity : String) : List (Handler σ) :=
  (r.entries.lookup ⟨stage, operation, entity⟩).getD []

def handlers (r : Registry σ) (stage operation entity : String) : List (Handler σ) :=
  r.own stage operation anyEntity
    ++ if entity = anyEntity then [] else r.own stage operation entity

/-- Removes the first of a spot's hooks that has the name, and tells whether there was one. The spot
stays, even with no hook left. -/
def remove (r : Registry σ) (stage operation entity name : String) : Bool × Registry σ :=
  let spot : Spot := ⟨stage, operation, entity⟩
  if (r.own stage operation entity).any (·.name == name) then
    (true, ⟨r.entries.map fun (here, hs) => (here, if here = spot then hs.eraseP (·.name == name) else hs)⟩)
  else (false, r)

/-- Drops the spots that match every part that is given. -/
def clear (r : Registry σ) (stage operation entity : Option String) : Registry σ :=
  if stage.isNone && operation.isNone && entity.isNone then ⟨[]⟩
  else ⟨r.entries.filter fun (here, _) => !here.isMatch stage operation entity⟩

/-- Runs hooks one after the other, each on the context that goes on after the one before. -/
def runChain : List (Handler σ) → HookContext → Act σ HookContext
  | [], c => pure c
  | h :: hs, c => do
    let c ← h.run c
    if c.abort.isPresent then return c else runChain hs c

def execute (r : Registry σ) (stage operation : String) (c : HookContext) : Act σ HookContext :=
  runChain (r.handlers stage operation c.entity) c

end Registry

end RecordGraph
