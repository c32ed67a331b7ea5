import RecordGraph.Access.Decision
import RecordGraph.Schema.Basic

/-!
# Viewpoints

A user looking at the entities of a schema under some rules.
-/

namespace RecordGraph

structure Viewpoint where
  schema : Schema
  rules : Rules
  user : User

namespace Viewpoint

def decide (v : Viewpoint) (action : Action) (entity : String) : Except Failure Decision :=
  v.rules.decide action entity v.user

def filterFor (v : Viewpoint) (action : Action) (entity : String) : Except Failure Object :=
  v.rules.filterFor action entity v.user

def canCreate (v : Viewpoint) (entity : String) (payload : Value) : Except Failure Bool :=
  v.rules.canCreate entity v.user payload

def ensureCanCreate (v : Viewpoint) (entity : String) (payload : Value) : Except Failure Unit :=
  v.rules.ensureCanCreate entity v.user payload

def omitted (v : Viewpoint) (entity : String) : Except Failure (List String) :=
  v.rules.omitted entity v.user

/-- The omitted fields as a tree of names that are set. -/
def omission (v : Viewpoint) (entity : String) : Except Failure Object :=
  return Object.ofMembers ((← v.omitted entity).map fun name => (name, .bool true))

end Viewpoint

end RecordGraph
