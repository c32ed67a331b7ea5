import RecordGraph.Failure.Basic
import RecordGraph.Value.Display

/-!
# From failures to request errors

A failure that leaves the library becomes a request error: request errors stay as they are, a fault
with a known code takes the status and message of the code, and all else is a general storage error
that tells its text only outside production.
-/

namespace RecordGraph

def genericMessage : String := "Something went wrong"

/-- The message of a duplicate: the entity, the fields and the value that were taken already. The
value is looked up in the payload first. -/
def duplicateMessage (f : StorageFault) (payload : Object) : String :=
  let target : Value := match Object.get f.details "target" with
    | .list items => .text (joinTexts "," (items.map Value.shown))
    | v => v
  let entity := Object.get f.details "entity"
  let given : Value := match target with
    | .text t => Object.get payload t
    | _ => .null
  let value := match given with
    | .null => Object.get f.details "value"
    | v => v
  "Duplicate entry for " ++ entity.shown ++ ". Record with " ++ target.shown ++ ": '" ++ value.shown
    ++ "' already exists"

/-- How much of a failure a caller is told. -/
structure Disclosure where
  production : Bool := false
deriving Repr, DecidableEq, Inhabited

namespace Disclosure

private def unmapped (d : Disclosure) (failure : Failure) : RequestError :=
  let text := failure.text
  .storage 500 (if d.production || text == "" then genericMessage else text) none

/-- The request error of a failure; `payload` is what was being written. -/
def requestError (d : Disclosure) (failure : Failure) (payload : Object := []) : RequestError :=
  match failure with
  | .request e => e
  | .fault f =>
    match f.label.code? with
    | some c => .storage c.status (c.message?.getD (duplicateMessage f payload)) (some f.label.text)
    | none => d.unmapped failure
  | _ => d.unmapped failure

end Disclosure

end RecordGraph
