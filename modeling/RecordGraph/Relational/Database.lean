import RecordGraph.Relational.Model

/-!
# Databases

Tables are lists of rows; a row has a cell for each column. The engine keeps keys and unique columns
unique and required columns filled, and numbers rows that come without a key. It does not look at
the keys that rows hold of other rows.
-/

namespace RecordGraph

/-- The cells of a row by column. -/
abbrev Row := List (String × Cell)

namespace Row

/-- The cell of a column; null if there is none. -/
def get (r : Row) (column : String) : Cell := (r.lookup column).getD .null

def set (r : Row) (column : String) (cell : Cell) : Row :=
  r.map fun (name, old) => (name, if name == column then cell else old)

/-- The primary key. -/
def key (m : Model) (r : Row) : List Cell := m.keys.map r.get

/-- The values of the columns. -/
def values (m : Model) (r : Row) : Object := m.columns.map fun c => (c.name, c.kind.read (r.get c.name))

end Row

structure Database where
  /-- The rows by the name of the model. -/
  tables : List (String × List Row) := []
  /-- The pairs of keys of a join table. -/
  joins : List (String × List (Cell × Cell)) := []
deriving Repr, Inhabited

namespace Database

def setEntry {α : Type} (name : String) (value : α) : List (String × α) → List (String × α)
  | [] => [(name, value)]
  | (n, v) :: rest => if n == name then (n, value) :: rest else (n, v) :: setEntry name value rest

def rowsOf (db : Database) (model : String) : List Row := (db.tables.lookup model).getD []

def pairsOf (db : Database) (table : String) : List (Cell × Cell) := (db.joins.lookup table).getD []

/-- The rows of a model in the order of their keys. -/
def rows (db : Database) (m : Model) : List Row :=
  (db.rowsOf m.name).mergeSort fun r s => Cell.orderLists (r.key m) (s.key m) != .gt

def setRows (db : Database) (model : String) (rows : List Row) : Database :=
  { db with tables := setEntry model rows db.tables }

def setPairs (db : Database) (table : String) (pairs : List (Cell × Cell)) : Database :=
  { db with joins := setEntry table pairs db.joins }

/-- The row with a key. -/
def row? (db : Database) (m : Model) (key : List Cell) : Option Row :=
  (db.rowsOf m.name).find? fun r => r.key m == key

/-! ## Links -/

/-- Whether a row is linked to another. -/
def linked (db : Database) (l : Link) (row other : Row) : Bool :=
  match l.kind with
  | .holds column => (row.get column).same (other.get l.keyColumn)
  | .heldBy column _ => (other.get column).same (row.get l.keyColumn)
  | .through table => (db.pairsOf table).any fun (a, b) =>
      a.same (row.get l.keyColumn) && b.same (other.get l.keyColumn)

/-- The rows that a row is linked to. -/
def linkedRows (db : Database) (l : Link) (row : Row) : List Row :=
  (db.rowsOf l.target).filter (db.linked l row)

/-! ## Constraints -/

private def integrity (message : String) : EngineError := { kind := .integrity, message }

/-- Whether a row has the same cells in some columns as another. -/
private def agreesOn (columns : List String) (r s : Row) : Bool :=
  columns.all fun c => (r.get c).same (s.get c)

private def columnPath (m : Model) (column : String) : String := m.table ++ "." ++ column

/-- Why a row cannot stand beside others, if it cannot. -/
def violation? (m : Model) (others : List Row) (r : Row) : Option EngineError :=
  let badKey := m.isNumbered && (r.key m).any fun
    | .integer _ => false
    | _ => true
  let groups := m.keys :: (m.columns.filter (·.unique)).map fun c => [c.name]
  if badKey then some (integrity "datatype mismatch")
  else
    match m.columns.find? fun c => (!c.nullable || c.isKey) && (r.get c.name).isNull with
    | some c => some (integrity ("NOT NULL constraint failed: " ++ columnPath m c.name))
    | none =>
      (groups.find? fun g => others.any (agreesOn g r)).map fun g =>
        integrity ("UNIQUE constraint failed: " ++ joinTexts ", " (g.map (columnPath m)))

/-- The next free number of a table: one more than the greatest, or one. After the greatest integer
comes any other free number, here the least. -/
def nextNumber (m : Model) (rows : List Row) : Int :=
  let taken := rows.filterMap fun r =>
    match r.key m with
    | [.integer n] => some n
    | _ => none
  match taken.max? with
  | none => 1
  | some n =>
    if n < ColumnKind.greatestInteger then n + 1
    else
      let numbers := (List.range (taken.length + 1)).map fun k => Int.ofNat k + 1
      (numbers.find? fun k => k ≤ ColumnKind.greatestInteger && !taken.contains k).getD 1

/-- The row with a number for a key, if it has none. -/
def numbered (m : Model) (rows : List Row) (r : Row) : Row :=
  if m.isNumbered && (r.key m).all Cell.isNull then
    m.keys.foldl (fun r k => r.set k (.integer (nextNumber m rows))) r
  else r

/-- Adds a row; also tells its key. -/
def insert (db : Database) (m : Model) (r : Row) : Except Failure (List Cell × Database) :=
  let rows := db.rowsOf m.name
  let r := numbered m rows r
  match violation? m rows r with
  | some e => throw (.engine e)
  | none => pure (r.key m, db.setRows m.name (rows ++ [r]))

/-- Puts a row in the place of the one with a key. -/
def replace (db : Database) (m : Model) (key : List Cell) (r : Row) : Except Failure Database :=
  let rows := db.rowsOf m.name
  match violation? m (rows.filter fun s => s.key m != key) r with
  | some e => throw (.engine e)
  | none => pure (db.setRows m.name (rows.map fun s => if s.key m == key then r else s))

def remove (db : Database) (m : Model) (key : List Cell) : Database :=
  db.setRows m.name ((db.rowsOf m.name).filter fun s => s.key m != key)

end Database

end RecordGraph
