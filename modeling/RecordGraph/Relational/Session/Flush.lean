import RecordGraph.Relational.Session

/-!
# Flushing a session

What is set on the objects of a session and how they are linked is written to the tables in one pass,
which takes place before every look-up and at the end. The pass goes through the tables so that a row
is written before the rows that hold its key, and it works out the keys that rows hold from the links
that have changed.
-/

namespace RecordGraph

namespace Work

variable (c : Catalog)

/-! ## Keys -/

/-- Lets an object hold the key of another, or none. A column of the primary key cannot be emptied. -/
def holdKey (ref : Ref) (columnName keyColumn : String) (other : Option Ref) : Work Unit := do
  let t ← object ref
  let some column := t.model.column? columnName | throw .illFormed
  match other with
  | some o =>
    let owner ← object o
    let some key := owner.model.column? keyColumn | throw .illFormed
    setValue ref columnName (← valueOf o key)
  | none =>
    if column.isKey && !(← valueOf ref column).isNull then throw .illFormed
    else setValue ref columnName .null

/-- The objects at the other end of a link as the database has them. -/
def storedEnds (ref : Ref) (l : Link) : Work (List Ref) := do
  match ← rowOf ref with
  | none => return []
  | some row =>
    let target ← c.named l.target
    let db := (← get).db
    ((db.rows target).filter (db.linked l row)).mapM (ofRow target)

/-- The links by which other rows hold the keys of rows of a model. -/
def heldLinks (m : Model) (target : Model) : List (Link × String) :=
  m.links.filterMap fun l =>
    match l.kind with
    | .heldBy column _ => if l.target == target.name then some (l, column) else none
    | _ => none

/-- Empties the keys of rows that are to be removed, in the rows of a model that hold them. -/
def releaseDoomed (m : Model) : Work Unit := do
  for owner in ← refsWhere (·.stage == .doomed) do
    let t ← object owner
    for (l, column) in heldLinks t.model m do
      let held ← match t.ends.lookup l.name with
        | some e => pure (e.before.getD [])
        | none => storedEnds c owner l
      let keepers ← refsWhere fun p => p.isAttached && p.model.name == t.model.name
      let kept ← keepers.flatMapM fun p => do
        return (((← object p).ends.lookup l.name).map Ends.added).getD []
      for child in held do
        if (← object child).stage != .doomed && !kept.contains child then
          holdKey child column l.keyColumn none

/-- Lets the rows of a model hold the keys of the rows that they are linked to. -/
def holdOwn (m : Model) : Work Unit := do
  for ref in ← refsWhere fun t => t.isAttached && t.model.name == m.name do
    let t ← object ref
    for l in m.links do
      match l.kind, t.ends.lookup l.name with
      | .holds column, some e => if e.changed then holdKey ref column l.keyColumn e.now.head?
      | _, _ => pure ()

/-- Lets the rows of a model hold the keys of the rows that were linked to them. -/
def holdOthers (m : Model) : Work Unit := do
  for owner in ← refsWhere Tracked.isAttached do
    let t ← object owner
    for (l, column) in heldLinks t.model m do
      match t.ends.lookup l.name with
      | none => pure ()
      | some e =>
        for child in e.added do
          if (← object child).isAttached then holdKey child column l.keyColumn (some owner)
        for child in e.removed do
          if (← object child).isAttached then holdKey child column l.keyColumn none

/-! ## Rows -/

/-- The values that differ from those of a row. -/
def differing (m : Model) (row : Row) (values : Object) : Object :=
  values.filter fun (name, v) => !v.same (Object.get (row.values m) name)

def bindColumn (column : Column) (v : Value) : Except Failure Cell :=
  (column.kind.bind v).map column.kind.keep

/-- Writes what was set on a row of the database. -/
def updateRow (ref : Ref) : Work Unit := do
  let t ← object ref
  let s ← get
  match s.db.row? t.model t.key with
  | none => pure ()
  | some row =>
    let changes := differing t.model row t.values
    if changes.isEmpty then return
    let row ← Act.ofExcept (t.model.columns.foldlM
      (fun row column =>
        match Object.get? column.name changes with
        | some v => return row.set column.name (← bindColumn column v)
        | none => pure row)
      row)
    let db ← s.db.replace t.model t.key row
    set { s with db }
    modifyObject ref fun t => { t with key := row.key t.model }

/-- The row of a new object; where nothing is given it has the defaults. -/
def newRow (t : Tracked) : Except Failure Row :=
  t.model.columns.mapM fun column => do
    let v := match Object.get t.values column.name with
      | .null => column.default?.getD .null
      | v => v
    return (column.name, ← bindColumn column v)

/-- Writes the rows of a model, those of the database before the new ones. -/
def writeRows (m : Model) : Work Unit := do
  for ref in ← refsWhere fun t => t.stage == .stored && t.model.name == m.name do updateRow ref
  let fresh ← refsWhere fun t => t.stage == .pending && t.model.name == m.name
  let queued := (← get).queue.filter fresh.contains
  let rows ← queued.mapM fun ref => do return (ref, ← newRow (← object ref))
  for (ref, row) in rows do
    let s ← get
    let (key, db) ← s.db.insert m row
    set { s with db }
    modifyObject ref fun t => { t with stage := .stored, key, values := [] }

def writePairs : Work Unit := do
  for ref in ← refsWhere fun t => t.isAttached || t.stage == .doomed do
    let t ← object ref
    for l in t.model.links do
      match l.kind with
      | .through table =>
        let keyOf (r : Ref) : Work Cell := do
          return ((← object r).key.head?).getD .null
        let own ← keyOf ref
        let (gone, come) ← match t.stage, t.ends.lookup l.name with
          | .doomed, some e => pure (e.before.getD [], [])
          | .doomed, none => pure (← storedEnds c ref l, [])
          | _, some e => pure (e.removed, e.added)
          | _, none => pure ([], [])
        let gone ← gone.mapM keyOf
        let come ← come.mapM keyOf
        modify fun s =>
          let pairs := (s.db.pairsOf table).filter fun (a, b) => !(a == own && gone.contains b)
          { s with db := s.db.setPairs table (pairs ++ come.map (own, ·)) }
      | _ => pure ()

def removeRows (m : Model) : Work Unit := do
  for ref in ← refsWhere fun t => t.stage == .doomed && t.model.name == m.name do
    let t ← object ref
    modify fun s => { s with db := s.db.remove m t.key }
    modifyObject ref fun t => { t with stage := .gone }

/-- What holds of an attached object after its row was written. -/
def settle (t : Tracked) : Tracked :=
  if t.isAttached then
    { t with values := [], ends := t.ends.map fun (name, e) => (name, { e with before := some e.now }) }
  else t

/-- Writes all that has changed. -/
def flush : Work Unit := do
  let models := c.inOrder
  for m in models do releaseDoomed c m
  for m in models do
    holdOwn m
    holdOthers m
    writeRows m
  writePairs c
  for m in models.reverse do removeRows m
  modify fun s => { s with objects := s.objects.map settle, queue := [] }

end Work

end RecordGraph
