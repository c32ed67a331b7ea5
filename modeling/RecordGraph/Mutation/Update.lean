import RecordGraph.Mutation.Payload

/-!
# Updated records

Turns the payload of an update into fields and graph operations. Items of a list relation are
connected if they are nothing but a key, updated (or created, for a user who may) if they have a
whole key and more, and created otherwise. Only rows that the user may read are connected, and only
rows that the user may update are updated. The key of a record is never written.
-/

namespace RecordGraph

namespace Writer

variable (w : Writer)

/-- How the nested value of a relation becomes operations; none if there is nothing to do. -/
abbrev UpdateNesting := Relation → Value → Except Failure (Option Value)

/-- A nested record with its relations turned into operations. -/
def updateItem (nesting : UpdateNesting) (entity : String) (item : Object) : Except Failure Object := do
  let e ← w.view.schema.entity entity
  item.foldlM
    (fun result (key, value) =>
      match e.relation? key with
      | none => pure result
      | some r =>
        if value.isPresent && (value.isObject || value.isList) then do
          match ← nesting r value with
          | some operations => return Object.set key operations result
          | none => return Object.erase key result
        else pure result)
    item

/-- What becomes of one item of a list relation. -/
inductive ItemKind where
  | connect
  | upsert
  | create
deriving Repr, DecidableEq, Inhabited

/-- An item is connected if it is nothing but a key, or part of the key of a join table; it is
updated if it has a whole key, or belongs to a join table. -/
def itemKind (keys : List String) (joinKey : Option (List String)) (item : Object) : ItemKind :=
  let given := item.keys
  let onlyKey := match joinKey with
    | some names => given.all names.contains
    | none => given.all keys.contains && keys.all given.contains
  if onlyKey then .connect
  else if joinKey.isSome || keys.all fun k => !(Object.get item k).isNull then .upsert
  else .create

/-- The filter of the rows of a target that the user may update. -/
def updateGuard (target : String) : Except Failure Object := w.view.filterFor .update target

/-- The operation that updates an item, or creates it where it is missing. -/
def upsertEntry (r : Relation) (keys : List String) (joinKey : Option (List String)) (parent : Value)
    (dropped : List String) (canCreate : Bool) (guard item : Object) : Except Failure Value := do
  let condition := Guard.merge (← itemWhere r keys joinKey parent item) guard
  let body := item.without dropped
  let changes ← w.linkForeignKeys r.target true (body.without keys)
  if canCreate then
    let whole ← w.linkForeignKeys r.target false body
    return .object [("where", .object condition), ("create", .object whole), ("update", .object changes)]
  else return .object [("where", .object condition), ("data", .object changes)]

/-- The operations that update items. Without an item the user need not be one who may update. -/
def upsertEntries (r : Relation) (keys : List String) (joinKey : Option (List String)) (parent : Value)
    (dropped : List String) (canCreate : Bool) : List Object → Except Failure (List Value)
  | [] => pure []
  | items => do
    let guard ← w.updateGuard r.target
    items.mapM (w.upsertEntry r keys joinKey parent dropped canCreate guard)

/-- The bodies of the items that are created, for a user who may. -/
def createBodies (r : Relation) (dropped : List String) (canCreate : Bool) (items : List Object) :
    Except Failure (List Value) :=
  if canCreate then
    items.mapM fun item => do
      return Value.object (← w.linkForeignKeys r.target false (item.without dropped))
  else pure []

/-- The operations for the items of a list relation. The parent sets the back-references itself. -/
def updateMany (nesting : UpdateNesting) (r : Relation) (items : List Value) (parent : Value) :
    Except Failure Value := do
  let keys ← w.view.schema.keys r.target
  let joinKey ← w.view.schema.joinKey? r
  let dropped := (← w.view.omitted r.target) ++ r.references
  let prepared ← items.mapM fun item => do
    w.updateItem nesting r.target (← w.checkedItem r.target r.name item)
  let ofKind (kind : ItemKind) := prepared.filter fun item => itemKind keys joinKey item == kind
  for item in ofKind .create do w.view.ensureCanCreate r.target (.object item)
  let canCreate ← w.view.canCreate r.target .null
  let connects ← (ofKind .connect).mapM fun item => do
    return Value.object (← w.guarded r.target (← itemWhere r keys joinKey parent item))
  let upserts ← w.upsertEntries r keys joinKey parent dropped canCreate (ofKind .upsert)
  let creates ← w.createBodies r dropped canCreate (ofKind .create)
  let member (key : String) (items : List Value) : Object :=
    if items.isEmpty then [] else [(key, .list items)]
  return .object (member "connect" connects
    ++ member (if canCreate then "upsert" else "update") upserts ++ member "create" creates)

/-- The operation for the record of a relation: it is updated, or created where it is missing. Null
members and empty operations alone are no reason to write. -/
def updateOne (nesting : UpdateNesting) (r : Relation) (item : Value) :
    Except Failure (Option Value) := do
  if Payload.isOperation item then return some item
  w.view.ensureCanCreate r.target item
  let omitted ← w.view.omitted r.target
  let .object members := item | throw .illFormed
  let cleaned := Object.without members omitted
  let members ← w.checkedItem r.target r.name (.object cleaned)
  let processed ← w.updateItem nesting r.target members
  let whole ← w.linkForeignKeys r.target false processed
  let keys ← w.view.schema.keys r.target
  let changes ← w.linkForeignKeys r.target true (processed.without keys)
  let parts : Object :=
    (if Payload.hasMeaning whole then [("create", .object whole)] else [])
      ++ (if Payload.hasMeaning changes then [("update", .object changes)] else [])
  return if parts.isEmpty then none else some (.object [("upsert", .object parts)])

/-- The operations for the value of a relation that may nest so many levels of relations. Only the
record itself is known as a parent; the parents further down are not. -/
def updateNested : Nat → Value → UpdateNesting
  | 0, _ => fun _ _ => throw w.tooDeep
  | levels + 1, parent => fun r value =>
    match value with
    | .list items => some <$> w.updateMany (updateNested levels .null) r items parent
    | item => w.updateOne (updateNested levels .null) r item

def updateTopMember (e : Entity) (id : Value) (result : Object) (key : String) :
    Except Failure Object := do
  let value := Object.get result key
  if (e.field? key).all Field.isRelation then
    match e.relation? key with
    | none => throw (unexpectedKey key)
    | some r =>
      if value.isPresent then
        match ← w.updateNested w.levels id r value with
        | some operations => return Object.set key operations result
        | none => return Object.erase key result
      else return result
  else
    match e.relationForField? key with
    | none => return result
    | some r =>
      let rest := Object.erase key result
      match value with
      | .null => return Object.set r.name (.object [("disconnect", .bool true)]) rest
      | v => return Object.set r.name (← w.connect r v) rest

/-- The fields and operations of a record with an id that is updated. -/
def update (entity : String) (id : Value) (payload : Object) : Except Failure Object := do
  let stripped ← w.strip entity payload
  let body := stripped.without (← w.view.schema.keys entity)
  let e ← w.view.schema.entity entity
  body.keys.foldlM (w.updateTopMember e id) body

end Writer

end RecordGraph
