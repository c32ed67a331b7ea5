import RecordGraph.Access.Principal
import RecordGraph.Operation.Outcome

/-!
# Hook contexts

What hooks see and change: the inputs of an operation before it, its outcome after it. The inputs
are whatever the caller gave.
-/

namespace RecordGraph

structure HookContext where
  entity : String
  operation : String
  stage : String
  user : Option User := none
  data : Value := .null
  id : Value := .null
  outcome : Outcome := .value .null
  query : Value := .null
  includes : Value := .null
  fields : Value := .null
  take : Value := .null
  offset : Value := .null
  sortBy : Value := .null
  sortOrder : Value := .null
  uniqueKey : Value := .null
  options : Value := .object []
  /-- Ends the chain and, before an operation, takes its place. -/
  abort : Value := .bool false
  skip : Value := .bool false
  softDelete : Value := .bool false
  extra : Value := .object []
deriving Inhabited

namespace HookContext

/-- Sets an attribute by its name. -/
def set (c : HookContext) (name : String) (v : Value) : Except Failure HookContext := do
  match name, v with
  | "entity", .text s => return { c with entity := s }
  | "operation", .text s => return { c with operation := s }
  | "hook", .text s => return { c with stage := s }
  | "user", .null => return { c with user := none }
  | "data", v => return { c with data := v }
  | "id", v => return { c with id := v }
  | "result", v => return { c with outcome := .value v }
  | "query", v => return { c with query := v }
  | "include", v => return { c with includes := v }
  | "fields", v => return { c with fields := v }
  | "take", v => return { c with take := v }
  | "offset", v => return { c with offset := v }
  | "sort_by", v => return { c with sortBy := v }
  | "sort_order", v => return { c with sortOrder := v }
  | "unique_key", v => return { c with uniqueKey := v }
  | "options", v => return { c with options := v }
  | "abort", v => return { c with abort := v }
  | "skip", v => return { c with skip := v }
  | "soft_delete", v => return { c with softDelete := v }
  | "extra", v => return { c with extra := v }
  | _, _ => throw .illFormed

def setAll (c : HookContext) (attributes : Object) : Except Failure HookContext :=
  attributes.foldlM (fun c (n, v) => c.set n v) c

private def updated (v : Value) (more : Object) : Except Failure Value :=
  match v with
  | .object o => pure (.object (Object.update o more))
  | _ => throw .illFormed

def patchData (c : HookContext) (more : Object) : Except Failure HookContext :=
  return { c with data := ← updated c.data more }

def dropData (c : HookContext) (keys : List String) : Except Failure HookContext :=
  match c.data with
  | .object o => return { c with data := .object (Object.without o keys) }
  | _ => if keys.isEmpty then return c else throw .illFormed

def patchOptions (c : HookContext) (more : Object) : Except Failure HookContext :=
  return { c with options := ← updated c.options more }

/-- Sets members of the outcome, which is an object or absent. -/
def mergeOutcome (c : HookContext) (more : Object) : Except Failure HookContext :=
  match c.outcome with
  | .value (.object o) => return { c with outcome := .value (.object (Object.update o more)) }
  | o => if o.isPresent then throw .illFormed
    else return { c with outcome := .value (.object (Object.ofMembers more)) }

def describe (c : HookContext) : Value :=
  .object [("entity", .text c.entity), ("operation", .text c.operation), ("hook", .text c.stage),
    ("user", (c.user.map User.id).getD .null), ("data", c.data), ("id", c.id),
    ("result", c.outcome.describe), ("query", c.query), ("include", c.includes),
    ("fields", c.fields), ("take", c.take), ("offset", c.offset), ("sort_by", c.sortBy),
    ("sort_order", c.sortOrder), ("unique_key", c.uniqueKey), ("options", c.options),
    ("abort", c.abort), ("skip", c.skip), ("soft_delete", c.softDelete), ("extra", c.extra)]

end HookContext

end RecordGraph
