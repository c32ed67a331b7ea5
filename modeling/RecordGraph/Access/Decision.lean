import RecordGraph.Access.Guard
import RecordGraph.Access.Rule

/-!
# Access decisions

What the rules come to for a user and an entity. A filter that says nothing does not restrict, and
the system is never restricted.
-/

namespace RecordGraph

inductive Decision where
  | allow
  | deny
  | restrict (filter : Object)
deriving Repr, Inhabited

namespace Decision

/-- The decision that a rule's answer stands for. -/
def ofAnswer : Value → Decision
  | .bool false => .deny
  | .object filter =>
    match Guard.clean (.object filter) with
    | some (.object (c :: cs)) => .restrict (c :: cs)
    | _ => .allow
  | _ => .allow

/-- The filter that goes with a decision; empty if there is none. -/
def filter : Decision → Object
  | .restrict f => f
  | _ => []

def denied : Decision → Bool
  | .deny => true
  | _ => false

def describe (d : Decision) : Value :=
  let access := match d with
    | .allow => "allow"
    | .deny => "deny"
    | .restrict _ => "filter"
  .object [("access", .text access), ("filter", .object d.filter), ("denied", .bool d.denied)]

end Decision

inductive Action where
  | read
  | update
  | delete
deriving Repr, DecidableEq, Inhabited

namespace Action

/-- The message for a user who may not do it to any row. -/
def refusal : Action → String
  | .read => "no_permission"
  | .update => "no_permission_to_update"
  | .delete => "no_permission_to_delete"

def ask (a : Action) (r : Rule) : Option (Principal → Except Failure Value) :=
  match a with
  | .read => r.readable
  | .update => r.updatable
  | .delete => r.deletable

end Action

namespace Rules

/-- What the rules allow a user to do with the rows of an entity. -/
def decide (rs : Rules) (action : Action) (entity : String) (user : User) : Except Failure Decision :=
  match user with
  | .system => pure .allow
  | .principal p =>
    match (rs.get? entity).bind action.ask with
    | none => pure .allow
    | some ask => (ask p).map Decision.ofAnswer

/-- The filter of the rows that are open to an action; refuses a user to whom none is. -/
def filterFor (rs : Rules) (action : Action) (entity : String) (user : User) : Except Failure Object := do
  match ← rs.decide action entity user with
  | .deny => throw (.access action.refusal entity)
  | d => return d.filter

/-- A caller's filter joined to that of the readable rows. -/
def readWhere (rs : Rules) (entity : String) (user : User) (filter : Object) : Except Failure Object :=
  return Guard.merge filter (← rs.filterFor .read entity user)

/-- Whether a user may create a record from a payload. -/
def canCreate (rs : Rules) (entity : String) (user : User) (payload : Value) : Except Failure Bool :=
  match user with
  | .system => pure true
  | .principal p =>
    match (rs.get? entity).bind (·.mayCreate) with
    | none => pure true
    | some ask => (ask p payload).map Value.isPresent

def ensureCanCreate (rs : Rules) (entity : String) (user : User) (payload : Value) :
    Except Failure Unit := do
  if !(← rs.canCreate entity user payload) then throw (.access "no_permission_to_create" entity)

/-- The fields of an entity that a user never sees. -/
def omitted (rs : Rules) (entity : String) (user : User) : Except Failure (List String) :=
  match user with
  | .system => pure []
  | .principal p =>
    match (rs.get? entity).bind (·.omitted) with
    | none => pure []
    | some ask => do
      match ← ask p with
      | .list names => names.mapM fun
        | .text name => pure name
        | _ => throw .illFormed
      | _ => pure []

end Rules

end RecordGraph
