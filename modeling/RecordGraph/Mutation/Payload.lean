import RecordGraph.Access.Viewpoint

/-!
# Payloads

What a client sends to be written. Under a relation stands either a plain value, from which graph
operations are worked out, or an object of graph operations, which is taken as it is.
-/

namespace RecordGraph

namespace Payload

/-- The operations on the records of a relation. -/
def operations : List String :=
  ["connect", "create", "disconnect", "set", "update", "upsert", "deleteMany", "updateMany",
   "createMany", "connectOrCreate"]

def isOperation : Value → Bool
  | .object o => operations.any (Object.contains o)
  | _ => false

/-- The operations that on their own are worth writing a record for. -/
def meaningful : List String := ["connect", "disconnect", "create", "update", "upsert"]

/-- Whether a member is worth writing: a scalar that is not null, or an operation that does
something. -/
def isMeaningful : Value → Bool
  | .null => false
  | .object o => meaningful.any fun op => (Object.get o op).isPresent
  | _ => true

def hasMeaning (payload : Object) : Bool := payload.any fun kv => isMeaningful kv.2

end Payload

/-- The fields that the system sets and no client can. -/
def defaultAuditFields : List String := ["createdAt", "createdBy", "updatedAt", "updatedBy"]

/-- A user who writes. -/
structure Writer where
  view : Viewpoint
  auditFields : List String := defaultAuditFields
  maxDepth : Int := 10

namespace Writer

variable (w : Writer)

/-- How many levels of relations a payload may have. -/
def levels : Nat := (w.maxDepth + 1).toNat

def tooDeep : Failure :=
  .validation "max_nesting_depth_exceeded" (some [("depth", .int w.maxDepth)])

/-- The payload without the fields that the user does not see and those that the system sets. -/
def strip (entity : String) (payload : Object) : Except Failure Object :=
  return payload.without ((← w.view.omitted entity) ++ w.auditFields)

def unexpectedKey (path : String) : Failure :=
  .validation "unexpected_key" (some [("key", .text path)])

/-- An item as an object of which every key is a field of the entity. -/
def checkedItem (entity path : String) (item : Value) : Except Failure Object := do
  let .object members := item | throw (unexpectedKey path)
  let e ← w.view.schema.entity entity
  for (key, _) in members do
    if !e.hasField key then throw (unexpectedKey (path ++ "." ++ key))
  return members

/-! ## Conditions on linked records -/

/-- A condition on records that are linked, joined to the filter of what the user may read. -/
def guarded (target : String) (condition : Object) : Except Failure Object :=
  return Guard.merge condition (← w.view.filterFor .read target)

/-- The condition that finds the record that a relation to one record is connected to. -/
def connectWhere (r : Relation) (value : Value) : Except Failure Object := do
  let keys ← w.view.schema.keys r.target
  let condition ←
    if 1 < keys.length ∧ (r.foreignKey?.getD "") = "" then
      match value with
      | .object given =>
        pure ((keys.filter fun k => !(Object.get given k).isNull).map fun k => (k, Object.get given k))
      | v => pure [(keys.headD "", v)]
    else pure [(← w.view.schema.connectKey r, value)]
  w.guarded r.target condition

def connect (r : Relation) (value : Value) : Except Failure Value :=
  return .object [("connect", .object (← w.connectWhere r value))]

/-- The condition that the keys of an item stand for. -/
def keyWhere (keys : List String) (item : Object) : Except Failure Object :=
  keys.mapM fun k =>
    match Object.get? k item with
    | some v => pure (k, v)
    | none => throw .illFormed

/-- The condition that finds an item of a list relation. A row of a join table is found by its whole
key, which holds the key of the parent. -/
def itemWhere (r : Relation) (keys : List String) (joinKey : Option (List String)) (parent : Value)
    (item : Object) : Except Failure Object :=
  match joinKey with
  | none => keyWhere keys item
  | some names =>
    let own : Object := names.filterMap fun n => (Object.get? n item).map (n, ·)
    let whole := Object.update [(r.references.headD "", parent)] own
    pure [(joinTexts "_" names, .object whole)]

/-- The body with its foreign keys turned into connections of their relations. A null key cuts the
connection of a record that is updated, and is left out of one that is created. -/
def linkForeignKeys (entity : String) (updating : Bool) (body : Object) : Except Failure Object := do
  let e ← w.view.schema.entity entity
  body.foldlM
    (fun result (key, value) =>
      match e.relationForField? key with
      | none => pure result
      | some r =>
        let rest := Object.erase key result
        match value with
        | .null =>
          if updating then pure (Object.set r.name (.object [("disconnect", .bool true)]) rest)
          else pure rest
        | v => return Object.set r.name (← w.connect r v) rest)
    body

end Writer

end RecordGraph
