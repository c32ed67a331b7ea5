import RecordGraph.Failure.Basic
import RecordGraph.Value.Equality

/-!
# Principals

Who makes a request. The system is a user of its own kind: no name and no role turns a principal
into it.
-/

namespace RecordGraph

structure Principal where
  id : Value := .null
  role : Value := .null
  roles : List Value := []
  /-- Further claims by name. -/
  claims : Object := []
deriving Repr, Inhabited

namespace Principal

def hasRole (p : Principal) (role : Value) : Bool :=
  role.same p.role || p.roles.any fun r => role.same r

/-- What is known of a principal under a name: its own attributes come before its claims. -/
def lookup (p : Principal) (name : String) : Except Failure Value :=
  match name with
  | "id" => pure p.id
  | "role" => pure p.role
  | "roles" => pure (.list p.roles)
  | "extra" => pure (.object p.claims)
  | _ => match Object.get? name p.claims with
    | some v => pure v
    | none => throw .illFormed

end Principal

inductive User where
  | system
  | principal (p : Principal)
deriving Repr, Inhabited

namespace User

def isSystem : User → Bool
  | .system => true
  | .principal _ => false

def id : User → Value
  | .system => .text "system"
  | .principal p => p.id

end User

end RecordGraph
