import RecordGraph.Operation.Act
import RecordGraph.Relational.Where

/-!
# Sessions

A write works on objects: rows of the database and rows to be. An object knows what was set on it and
how it was linked; none of this is in the tables before the session is flushed.
-/

namespace RecordGraph

/-- The place of an object in its session. -/
abbrev Ref := Nat

inductive Stage where
  /-- A new row, not yet to be written. -/
  | fresh
  /-- A new row that the next pass writes. -/
  | pending
  | stored
  /-- A row that the next pass removes. -/
  | doomed
  | gone
deriving Repr, DecidableEq, Inhabited

/-- The objects at the other end of a link. -/
structure Ends where
  /-- Those of the database, if they are known. -/
  before : Option (List Ref)
  now : List Ref
deriving Repr, DecidableEq, Inhabited

namespace Ends

def added (e : Ends) : List Ref := e.now.filter fun r => !(e.before.getD []).contains r

def removed (e : Ends) : List Ref := (e.before.getD []).filter fun r => !e.now.contains r

def changed (e : Ends) : Bool := e.before != some e.now

end Ends

structure Tracked where
  model : Model
  stage : Stage := .fresh
  /-- The key of the row of the database. -/
  key : List Cell := []
  /-- What was set and is not yet written. -/
  values : Object := []
  /-- The links that were looked at or set. -/
  ends : List (String × Ends) := []
deriving Inhabited

namespace Tracked

/-- Whether the object belongs to the session. -/
def isAttached (t : Tracked) : Bool := t.stage == .pending || t.stage == .stored

def isStored (t : Tracked) : Bool := t.stage == .stored || t.stage == .doomed

def setEnds (t : Tracked) (l : Link) (e : Ends) : Tracked :=
  { t with ends := (l.name, e) :: t.ends.filter fun (name, _) => name != l.name }

end Tracked

structure Session where
  db : Database
  objects : List Tracked := []
  /-- The new rows that are to be written, in order. -/
  queue : List Ref := []
deriving Inhabited

abbrev Work := Act Session

namespace Work

def object (ref : Ref) : Work Tracked := do
  match (← get).objects[ref]? with
  | some t => return t
  | none => throw .illFormed

def modifyObject (ref : Ref) (f : Tracked → Tracked) : Work Unit :=
  modify fun s => { s with objects := s.objects.modify ref f }

def track (t : Tracked) : Work Ref := do
  let s ← get
  set { s with objects := s.objects ++ [t] }
  return s.objects.length

/-- The object of a row of the database. -/
def ofRow (m : Model) (row : Row) : Work Ref := do
  let s ← get
  let key := row.key m
  match s.objects.findIdx? fun t => t.isStored && t.model.name == m.name && t.key == key with
  | some ref => return ref
  | none => track { model := m, stage := .stored, key }

/-- The row that an object has in the database. -/
def rowOf (ref : Ref) : Work (Option Row) := do
  let t ← object ref
  return (← get).db.row? t.model t.key

/-- The value of a column of an object: what was set, or what the database has. -/
def valueOf (ref : Ref) (column : Column) : Work Value := do
  let t ← object ref
  match Object.get? column.name t.values with
  | some v => return v
  | none =>
    let row : Option Row ← if t.isStored then rowOf ref else pure none
    return (row.map fun r => column.kind.read (r.get column.name)).getD .null

def setValue (ref : Ref) (column : String) (v : Value) : Work Unit :=
  modifyObject ref fun t => { t with values := Object.set column v t.values }

/-- The objects of the session that satisfy a test. -/
def refsWhere (test : Tracked → Bool) : Work (List Ref) := do
  let s ← get
  return (List.range s.objects.length).filter fun ref => (s.objects[ref]?).any test

end Work

end RecordGraph
