import RecordGraph.Mutation.Payload

/-!
# Created records

Turns the payload of a new record into fields and graph operations. Items of a list relation are
connected if they are nothing but a key, created if they have no whole key, and connected or created
if they have one and more. Only records that the user may read are connected.
-/

namespace RecordGraph

namespace Writer

variable (w : Writer)

/-- How the nested value of a relation becomes operations, at a path of relation names. -/
abbrev Nesting := Relation → Value → String → Except Failure Value

def createMember (nesting : Nesting) (e : Entity) (path : String) (result : Object) (key : String) :
    Except Failure Object := do
  let value := Object.get result key
  match e.relationForField? key with
  | some r =>
    let rest := Object.erase key result
    match value with
    | .null => return rest
    | v => return Object.set r.name (← w.connect r v) rest
  | none =>
    match e.relation? key with
    | some r =>
      if value.isPresent && (value.isObject || value.isList) then
        return Object.set key (← nesting r value (path ++ "." ++ key)) result
      else return result
    | none => return result

/-- A nested record: its foreign keys are connected and its relations nested further. -/
def createItem (nesting : Nesting) (entity path : String) (item : Object) : Except Failure Object := do
  let e ← w.view.schema.entity entity
  item.keys.foldlM (w.createMember nesting e path) item

/-- What becomes of one item of a list relation. -/
inductive Placement where
  | create (body : Object)
  | connect (filter : Object)
  | connectOrCreate (filter body : Object)
deriving Inhabited

namespace Placement

def created? : Placement → Option Value
  | .create body => some (.object body)
  | _ => none

def connected? : Placement → Option Value
  | .connect filter => some (.object filter)
  | _ => none

def either? : Placement → Option Value
  | .connectOrCreate filter body => some (.object [("where", .object filter), ("create", .object body)])
  | _ => none

/-- A member for the items of one kind, unless there are none. -/
def member (key : String) (items : List Value) : Object :=
  if items.isEmpty then [] else [(key, .list items)]

def operations (ps : List Placement) : Object :=
  member "create" (ps.filterMap created?) ++ member "connect" (ps.filterMap connected?)
    ++ member "connectOrCreate" (ps.filterMap either?)

end Placement

def placeItem (nesting : Nesting) (r : Relation) (path : String) (keys : List String)
    (joined : Bool) (dropped : List String) (item : Value) : Except Failure Placement := do
  let members ← w.checkedItem r.target path item
  let body := members.without dropped
  let complete := keys.all fun k => !(Object.get members k).isNull
  if joined || !complete then
    w.view.ensureCanCreate r.target item
    return .create (← w.createItem nesting r.target path body)
  else if members.keys.all keys.contains then
    return .connect (← w.guarded r.target (← keyWhere keys members))
  else
    w.view.ensureCanCreate r.target item
    let filter ← w.guarded r.target (← keyWhere keys members)
    return .connectOrCreate filter (← w.createItem nesting r.target path body)

/-- The operations for the items of a list relation. The parent sets the back-references itself. -/
def createMany (nesting : Nesting) (r : Relation) (items : List Value) (path : String) :
    Except Failure Value := do
  let keys ← w.view.schema.keys r.target
  let joinKey ← w.view.schema.joinKey? r
  let omitted ← w.view.omitted r.target
  let placements ← items.mapM
    (w.placeItem nesting r path keys joinKey.isSome (omitted ++ r.references))
  return .object (Placement.operations placements)

/-- The operations for the record of a relation. -/
def createOne (nesting : Nesting) (r : Relation) (item : Value) (path : String) :
    Except Failure Value := do
  if Payload.isOperation item then return item
  w.view.ensureCanCreate r.target item
  let omitted ← w.view.omitted r.target
  let .object members := item | throw .illFormed
  let cleaned := Object.without members omitted
  let members ← w.checkedItem r.target path (.object cleaned)
  return .object [("create", .object (← w.createItem nesting r.target path members))]

/-- The operations for the value of a relation that may nest so many levels of relations. -/
def createNested : Nat → Nesting
  | 0 => fun _ _ _ => throw w.tooDeep
  | levels + 1 => fun r value path =>
    match value with
    | .list items => w.createMany (createNested levels) r items path
    | item => w.createOne (createNested levels) r item path

def createTopMember (e : Entity) (result : Object) (key : String) : Except Failure Object := do
  let value := Object.get result key
  if (e.field? key).all Field.isRelation then
    match e.relation? key with
    | none => throw (unexpectedKey key)
    | some r =>
      if value.isPresent then return Object.set key (← w.createNested w.levels r value key) result
      else return result
  else
    match e.relationForField? key with
    | none => return result
    | some r =>
      let rest := Object.erase key result
      match value with
      | .null => return rest
      | v => return Object.set r.name (← w.connect r v) rest

/-- The fields and operations of a new record. -/
def create (entity : String) (payload : Object) : Except Failure Object := do
  let stripped ← w.strip entity payload
  let e ← w.view.schema.entity entity
  stripped.keys.foldlM (w.createTopMember e) stripped

end Writer

end RecordGraph
