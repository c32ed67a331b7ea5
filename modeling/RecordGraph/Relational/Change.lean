import RecordGraph.Relational.Record
import RecordGraph.Relational.Session.Link

/-!
# Changes of a graph

A payload sets columns of an object and runs operations on its relations: related rows are looked
up, created, updated and removed, and the links between the objects are changed. The names of the
members are those of columns and links.
-/

namespace RecordGraph

namespace Work

variable (c : Catalog)

def unsupported (op : String) : Failure :=
  .faultOf .unsupportedFeature ("Unsupported relation operation '" ++ op ++ "'")

/-- The member of an item that an operation needs. -/
def member (item : Value) (key : String) : Except Failure Value :=
  match item with
  | .object o =>
    match Object.get? key o with
    | some v => pure v
    | none => throw .illFormed
  | _ => throw .illFormed

/-- The member of an item, or nothing. -/
def member? (item : Value) (key : String) : Except Failure Value :=
  match item with
  | .object o => pure (Object.get o key)
  | _ => throw .illFormed

/-- The items of a list; any other value is one item. -/
def itemsOf : Value → List Value
  | .list items => items
  | v => [v]

/-- The row that a filter finds, to be linked. -/
def require (l : Link) (target : Model) (filter : Value) : Work Ref := do
  match ← findOne c target filter with
  | some ref => return ref
  | none =>
    throw (.faultOf .relatedRecordNotFound
      ("No '" ++ target.name ++ "' record found to connect for '" ++ l.name ++ "'")
      [("target", .text l.name), ("where", filter)])

/-- Refuses to cut a link that a row cannot do without. -/
def ensureOptional (m : Model) (l : Link) : Except Failure Unit := do
  let holder? : Option Column ← match l.kind with
    | .holds column => pure (m.column? column)
    | .heldBy column _ => (·.column? column) <$> c.named l.target
    | .through _ => pure none
  if holder?.any fun column => !column.nullable || column.isKey then
    throw (.faultOf .requiredRelationViolation
      ("Relation '" ++ l.name ++ "' is required and cannot be disconnected")
      [("target", .text l.name)])

/-! ## List relations -/

/-- The rows at the other end of a list relation. Once they were replaced as a whole, what further
operations add or take away counts no more. -/
structure Collection where
  owner : Ref
  link : Link
  replaced : Option (List Ref) := none

namespace Collection

def refs (k : Collection) : Work (List Ref) :=
  match k.replaced with
  | some old => pure old
  | none => endsOf c k.owner k.link

def put (k : Collection) (refs : List Ref) : Work Collection := do
  match k.replaced with
  | some _ => return { k with replaced := some refs }
  | none =>
    setEnds k.owner k.link refs
    return k

def add (k : Collection) (ref : Ref) : Work Collection := do
  let refs ← k.refs c
  if refs.contains ref then return k else k.put (refs ++ [ref])

def drop (k : Collection) (ref : Ref) : Work Collection := do
  k.put ((← k.refs c).erase ref)

def replace (k : Collection) (refs : List Ref) : Work Collection := do
  let old ← k.refs c
  setEnds k.owner k.link refs.eraseDups
  return { k with replaced := some old }

end Collection

/-! ## Payloads -/

/-- How the members of a payload are set on an object. -/
abbrev Setting := Ref → Value → Work Unit

/-- A new object with the members of a payload. -/
def build (setMembers : Setting) (m : Model) (payload : Value) : Work Ref := do
  let ref ← track { model := m }
  setMembers ref payload
  return ref

/-- One operation on the row of a relation to one. -/
def changeOne (setMembers : Setting) (ref : Ref) (m target : Model) (l : Link) (op : String)
    (v : Value) : Work Unit := do
  let current : Work (Option Ref) := List.head? <$> endsOf c ref l
  match op with
  | "connect" => linkOne ref l (some (← require c l target v))
  | "create" => linkOne ref l (some (← build setMembers target v))
  | "connectOrCreate" =>
    match ← findOne c target (← member v "where") with
    | some found => linkOne ref l (some found)
    | none => linkOne ref l (some (← build setMembers target (← member v "create")))
  | "upsert" =>
    match ← current with
    | some r => setMembers r (← member? v "update")
    | none =>
      let body ← member? v "create"
      if body.isPresent then linkOne ref l (some (← build setMembers target body))
  | "update" =>
    match ← current with
    | some r => setMembers r v
    | none =>
      throw (.faultOf .requiredRecordNotFound ("No '" ++ l.name ++ "' record to update")
        [("target", .text l.name)])
  | "disconnect" =>
    if v.isPresent then
      ensureOptional c m l
      let _ ← current
      linkOne ref l none
  | "delete" =>
    if v.isPresent then
      match ← current with
      | some r =>
        doom r
        linkOne ref l none
      | none => pure ()
  | op => throw (unsupported op)

/-- One operation on the rows of a list relation. -/
def changeMany (setMembers : Setting) (m target : Model) (k : Collection) (op : String)
    (v : Value) : Work Collection := do
  let l := k.link
  match op with
  | "connect" => (itemsOf v).foldlM (fun k filter => do k.add c (← require c l target filter)) k
  | "create" => (itemsOf v).foldlM (fun k body => do k.add c (← build setMembers target body)) k
  | "createMany" =>
    let bodies ← match ← member? v "data" with
      | .list bodies => pure bodies
      | data => if data.isPresent then throw .illFormed else pure []
    bodies.foldlM (fun k body => do k.add c (← build setMembers target body)) k
  | "connectOrCreate" =>
    (itemsOf v).foldlM
      (fun k item => do
        match ← findOne c target (← member item "where") with
        | some found => k.add c found
        | none => k.add c (← build setMembers target (← member item "create")))
      k
  | "upsert" =>
    (itemsOf v).foldlM
      (fun k item => do
        match ← findOne c target (← member item "where") with
        | some found =>
          setMembers found (← member? item "update")
          k.add c found
        | none => k.add c (← build setMembers target (← member item "create")))
      k
  | "update" =>
    for item in itemsOf v do
      let filter ← member item "where"
      match ← findOne c target filter with
      | some found => setMembers found (← member? item "data")
      | none =>
        throw (.faultOf .recordNotFound
          ("No related '" ++ l.name ++ "' record matches " ++ filter.shown)
          [("target", .text l.name)])
    return k
  | "disconnect" =>
    (itemsOf v).foldlM
      (fun k filter => do
        match ← findOne c target filter with
        | some found =>
          if (← k.refs c).contains found then
            ensureOptional c m l
            k.drop c found
          else return k
        | none => return k)
      k
  | "set" => k.replace c (← (itemsOf v).mapM (require c l target))
  | "delete" =>
    (itemsOf v).foldlM
      (fun k filter => do
        match ← findOne c target filter with
        | some found =>
          let k ← if (← k.refs c).contains found then k.drop c found else pure k
          doom found
          return k
        | none => return k)
      k
  | op => throw (unsupported op)

/-- The operations on a relation. -/
def changeRelation (setMembers : Setting) (ref : Ref) (m : Model) (l : Link) (v : Value) :
    Work Unit := do
  if !v.isPresent then return
  let .object operations := v
    | throw (.faultOf .queryValidation ("Relation '" ++ l.name ++ "' expects an operation object")
        [("target", .text l.name)])
  let target ← c.named l.target
  if l.isList then
    let k : Collection := { owner := ref, link := l }
    let _ ← k.refs c
    let _ ← operations.foldlM (fun k (op, v) => changeMany c setMembers m target k op v) k
  else
    for (op, v) in operations do changeOne c setMembers ref m target l op v

/-- Sets the members of a payload of so many levels on an object. -/
def setWithin : Nat → Setting
  | 0, _, payload => if payload.isPresent then throw .illFormed else pure ()
  | levels + 1, ref, payload => do
    match payload with
    | .object members =>
      let m := (← object ref).model
      for (key, v) in members do
        match m.link? key, m.column? key with
        | some l, _ => changeRelation c (setWithin levels) ref m l v
        | none, some column => setValue ref key (← column.coerce v)
        | none, none =>
          throw (.faultOf .queryValidation ("Unknown field '" ++ key ++ "' on " ++ m.name)
            [("target", .text key)])
    | v => if v.isPresent then throw .illFormed

/-- Sets the members of a payload on an object. -/
def setAll (ref : Ref) (payload : Object) : Work Unit :=
  setWithin c (Value.object payload).depth ref (.object payload)

/-- A new object with the members of a payload. -/
def create (m : Model) (payload : Object) : Work Ref := do
  let ref ← track { model := m }
  setAll c ref payload
  return ref

end Work

end RecordGraph
