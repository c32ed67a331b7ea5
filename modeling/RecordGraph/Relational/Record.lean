import RecordGraph.Relational.Where
import RecordGraph.Query.Plan

/-!
# Records

A row becomes a record of the shape that a plan asks for. The relations of a shape are loaded with
the rows; a list relation can be loaded with a filter. A relation that was not loaded cannot be
read, unless the row holds no key for it.
-/

namespace RecordGraph

mutual

def Value.depth : Value → Nat
  | .list vs => Value.listDepth vs + 1
  | .object o => Value.memberDepth o + 1
  | _ => 0

def Value.listDepth : List Value → Nat
  | [] => 0
  | v :: vs => max v.depth (Value.listDepth vs)

def Value.memberDepth : List (String × Value) → Nat
  | [] => 0
  | (_, v) :: rest => max v.depth (Value.memberDepth rest)

end

namespace Shape

/-- The relations that a shape loads: those that it includes or else those that it selects. -/
def loads (shape : Value) : Object :=
  match shape with
  | .object o =>
    let asked := Object.get o "include"
    match if asked.isPresent then asked else Object.get o "select" with
    | .object tree => tree
    | _ => []
  | _ => []

/-- The filter with which the rows of a relation are loaded. -/
def filter (l : Link) (entry : Value) : Value :=
  match l.isList, entry with
  | true, .object o => Object.get o "where"
  | _, _ => .null

/-- An object of a shape, which may be left out. -/
def part (shape : Object) (key : String) : Except Failure Object :=
  match Object.get shape key with
  | .object o => pure o
  | v => if v.isPresent then throw .illFormed else pure []

def members : Value → Object
  | .object o => o
  | _ => []

end Shape

namespace Catalog

variable (c : Catalog)

/-- Checks the filters of the relations that are loaded. -/
def checkLoads : Nat → Model → Object → Except Failure Unit
  | 0, _, _ => pure ()
  | levels + 1, m, tree => do
    for (name, entry) in tree do
      if entry.isPresent then
        match m.link? name with
        | none => pure ()
        | some l =>
          let target ← c.named l.target
          let _ ← c.condition target (Shape.filter l entry)
          checkLoads levels target (Shape.loads entry)

/-- The rows that are loaded for a relation of a row. -/
def loadedRows (db : Database) (l : Link) (entry : Value) (row : Row) :
    Except Failure (Model × List Row) := do
  let target ← c.named l.target
  let condition ← c.condition target (Shape.filter l entry)
  condition.bind
  return (target, (db.select target condition).filter (db.linked l row))

/-- Whether the row holds no key for the relation. -/
def holdsNoKey (l : Link) (row : Row) : Bool :=
  match l.kind with
  | .holds column => (row.get column).isNull
  | _ => false

/-- The record of a row, given the relations that were loaded and the shape to be shown. -/
def record (db : Database) : Nat → Model → Object → Object → Row → Except Failure Object
  | 0, _, _, _, _ => throw .illFormed
  | levels + 1, m, loads, shape, row => do
    let relation (l : Link) (entry : Value) : Except Failure Value := do
      let loaded := Object.get loads l.name
      if loaded.isPresent then
        let (target, rows) ← c.loadedRows db l loaded row
        let show_ (other : Row) : Except Failure Value :=
          Value.object <$> record db levels target (Shape.loads loaded) (Shape.members entry) other
        if l.isList then Value.list <$> rows.mapM show_
        else
          match rows with
          | [] => return .null
          | other :: _ => show_ other
      else if holdsNoKey l row then return .null
      else throw (refused ("Relation '" ++ l.name ++ "' was not loaded"))
    let values := row.values m
    match Object.get shape "select" with
    | .null =>
      let omitted ← Shape.part shape "omit"
      let included ← Shape.part shape "include"
      let related ← included.filterMapM fun (name, entry) => do
        if !entry.isPresent then return none
        match m.link? name with
        | some l => return some (name, ← relation l entry)
        | none => return none
      return values.filter (fun (name, _) => !(Object.get omitted name).isPresent) ++ related
    | .object tree =>
      tree.filterMapM fun (name, entry) => do
        if !entry.isPresent then return none
        match m.link? name with
        | some l => return some (name, ← relation l entry)
        | none => return (Object.get? name values).map (name, ·)
    | _ => throw .illFormed

end Catalog

namespace Plan

def shape (p : Plan) : Object :=
  let part (key : String) (o : Option Object) : Object := (o.map fun o => (key, Value.object o)).toList
  part "include" p.includes ++ part "select" p.selects ++ part "omit" p.omits

def loads (p : Plan) : Object := (p.includes.or p.selects).getD []

/-- How many levels of relations a plan can have. -/
def levels (p : Plan) : Nat := (Value.object p.shape).depth + 1

end Plan

end RecordGraph
