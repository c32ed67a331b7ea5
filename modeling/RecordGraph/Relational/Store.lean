import RecordGraph.Operation.Storage
import RecordGraph.Relational.Change
import RecordGraph.Relational.Duplicates
import RecordGraph.Relational.Sorting

/-!
# Relational storages

A storage over the models of a catalog. Every call is a transaction of its own, undone as a whole if
it fails. In a transaction of several calls a write that fails is undone by itself, and what a call
did before it failed to read its record back stays done.
-/

namespace RecordGraph

namespace Catalog

variable (c : Catalog)

/-- The model of an entity; others have no table. -/
def model (entity : String) : Except Failure Model :=
  match c.model? entity with
  | some m => pure m
  | none =>
    throw (.faultOf .tableNotFound ("Unknown entity '" ++ entity ++ "'") [("entity", .text entity)])

/-! ## Reading -/

/-- The greatest number of rows that can be asked for. -/
def checkCount (n : Option Int) : Except Failure Unit := do
  if n.any fun n => n < -ColumnKind.greatestInteger - 1 || ColumnKind.greatestInteger < n then
    throw .illFormed

def chosen (m : Model) (p : Plan) : Query (List Row) := do
  let condition ← c.condition m (.object p.filter)
  let sorting ← Sorting.read c m (p.order.getD [])
  c.checkLoads p.levels m p.loads
  condition.bind
  sorting.check m
  let db ← get
  return sorting.sort db (db.select m condition)

def shown (m : Model) (p : Plan) (row : Row) : Query Object := do
  c.record (← get) p.levels m p.loads p.shape row

/-- A count that is not negative bounds; another one does not. -/
def bounded (take : Option Int) (rows : List Row) : List Row :=
  match take with
  | some n => if n < 0 then rows else rows.take n.toNat
  | none => rows

def findMany (entity : String) (p : Plan) : Query (List Value) := do
  let m ← c.model entity
  let rows ← c.chosen m p
  checkCount p.take
  checkCount p.skip
  let rows := bounded p.take (rows.drop (p.skip.getD 0).toNat)
  rows.eraseDups.mapM fun row => Value.object <$> c.shown m p row

def findUnique (entity : String) (p : Plan) : Query (Option Object) := do
  let m ← c.model entity
  match ← c.chosen m p with
  | [] => return none
  | row :: _ => some <$> c.shown m p row

def count (entity : String) (filter : Object) : Query Int := do
  let m ← c.model entity
  let condition ← c.condition m (.object filter)
  condition.bind
  return ((← get).select m condition).length

/-! ## Writing -/

/-- Reads back the row with a key. -/
def output (m : Model) (p : Option Plan) (key : List Cell) : Query Object := do
  let p := p.getD {}
  c.checkLoads p.levels m p.loads
  match (← get).row? m key with
  | some row => c.shown m p row
  | none => throw (refused "No row was found when one was required")

/-- The key of an object whose row was written. -/
def written (ref : Ref) : Work (List Cell) := do
  Work.flush c
  return (← Work.object ref).key

def created (m : Model) (payload : Object) : Work (List Cell) := do
  let ref ← Work.create c m payload
  Work.attach ref
  written c ref

def updated (ref : Ref) (payload : Object) : Work (List Cell) := do
  Work.setAll c ref payload
  written c ref

def create (entity : String) (payload : Object) (p : Option Plan) : Query Object := do
  let m ← c.model entity
  let key ← Query.write entity (c.created m payload)
  c.output m p key

def update (entity : String) (filter payload : Object) (p : Option Plan) : Query (Option Object) := do
  let m ← c.model entity
  let key ← Query.write entity do
    match ← Work.findOne c m (.object filter) with
    | some ref => some <$> c.updated ref payload
    | none => return none
  key.mapM (c.output m p)

def upsert (entity : String) (filter fresh changes : Object) (p : Option Plan) : Query Object := do
  let m ← c.model entity
  let key ← Query.write entity do
    match ← Work.findOne c m (.object filter) with
    | some ref => c.updated ref changes
    | none => c.created m fresh
  c.output m p key

/-- The links of a row as its plan loads them. -/
def loadEnds (m : Model) (ref : Ref) (loads : Object) : Work Unit := do
  let some row ← Work.rowOf ref | return
  for l in m.links do
    let entry := Object.get loads l.name
    if entry.isPresent then
      let (target, rows) ← c.loadedRows (← get).db l entry row
      let refs ← rows.mapM (Work.ofRow target)
      let refs := if l.isList then refs else refs.take 1
      Work.modifyObject ref fun t => t.setEnds l ⟨some refs, refs⟩

/-- Removes a row and tells its record. The rows that hold its key lose it; if the plan loads a
relation with a filter, only those that pass it. -/
def delete (entity : String) (filter : Object) (p : Option Plan) : Query (Option Object) := do
  let m ← c.model entity
  Query.write entity do
    match ← Work.findOne c m (.object filter) with
    | none => return none
    | some ref =>
      let key := (← Work.object ref).key
      let record ← Act.ofExcept ((c.output m p key).runOn (← get).db).1
      c.loadEnds m ref (p.getD {}).loads
      Work.doom ref
      Work.flush c
      return some record

/-- Creates rows in one pass and counts them. -/
def createMany (entity : String) (rows : List Object) (skipDuplicates : Bool) : Query Int := do
  let m ← c.model entity
  Query.faulting (some entity) do
    let rows ← if skipDuplicates then withoutDuplicates m rows else pure rows
    Query.write entity do
      let refs ← rows.mapM (Work.create c m)
      for ref in refs do Work.attach ref
      Work.flush c
      return rows.length

/-! ## The storage -/

def calls : Access Database :=
  { findMany := c.findMany, findUnique := c.findUnique, count := c.count, create := c.create
    update := c.update, upsert := c.upsert, delete := c.delete
    createMany := fun entity rows => c.createMany entity rows true }

/-- The storage, each call of which is a transaction. A transaction of several calls is undone as well if
the clock cuts it at its limit. -/
def storage (clock : Clock := .patient) : Storage Database :=
  let own {α : Type} (entity : String) (act : Query α) : Query α := Query.transaction (some entity) act
  { findMany := fun entity p => own entity (c.findMany entity p)
    findUnique := fun entity p => own entity (c.findUnique entity p)
    count := fun entity filter => own entity (c.count entity filter)
    create := fun entity payload p => own entity (c.create entity payload p)
    update := fun entity filter payload p => own entity (c.update entity filter payload p)
    upsert := fun entity filter fresh changes p => own entity (c.upsert entity filter fresh changes p)
    delete := fun entity filter p => own entity (c.delete entity filter p)
    createMany := fun entity rows => own entity (c.createMany entity rows true)
    inTransaction := fun limit work => Query.transaction none (Query.within clock limit (work c.calls)) }

end Catalog

end RecordGraph
