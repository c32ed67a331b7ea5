import RecordGraph.Relational.Cell
import RecordGraph.Schema.Basic

/-!
# Models

A model describes a table and the links of its rows to the rows of other tables. A catalog gives
models their entity names; it describes itself as a schema.
-/

namespace RecordGraph

/-- How two rows are linked. -/
inductive LinkKind where
  /-- A column of this row holds the key of the other. -/
  | holds (column : String)
  /-- A column of the other rows holds the key of this one; there are many such rows or one. -/
  | heldBy (column : String) (many : Bool)
  /-- A join table holds pairs of keys. -/
  | through (table : String)
deriving Repr, DecidableEq, Inhabited

structure Link where
  name : String
  /-- The name of the model that it leads to. -/
  target : String
  kind : LinkKind
  /-- The column that the held keys are those of. -/
  keyColumn : String := "id"
deriving Repr, DecidableEq, Inhabited

namespace Link

def isList (l : Link) : Bool :=
  match l.kind with
  | .heldBy _ many => many
  | .holds _ => false
  | .through _ => true

end Link

structure Model where
  name : String
  table : String
  columns : List Column
  links : List Link := []
deriving Repr, Inhabited

namespace Model

def column? (m : Model) (name : String) : Option Column := m.columns.find? fun c => c.name == name

def link? (m : Model) (name : String) : Option Link := m.links.find? fun l => l.name == name

def keyColumns (m : Model) : List Column := m.columns.filter (·.isKey)

def keys (m : Model) : List String := m.keyColumns.map (·.name)

/-- Whether rows are numbered by the engine where no key is given. -/
def isNumbered (m : Model) : Bool :=
  match m.keyColumns with
  | [c] => c.kind == .integer
  | _ => false

end Model

structure Catalog where
  models : List (String × Model)
deriving Repr, Inhabited

namespace Catalog

def model? (c : Catalog) (entity : String) : Option Model := c.models.lookup entity

def named (c : Catalog) (name : String) : Except Failure Model :=
  match c.models.find? fun (_, m) => m.name == name with
  | some (_, m) => pure m
  | none => throw .illFormed

/-- The entity of a model, the last one if there are several; a model outside the catalog goes by
its own name. -/
def entityOf (c : Catalog) (name : String) : String :=
  match c.models.reverse.find? fun (_, m) => m.name == name with
  | some (entity, _) => entity
  | none => name

/-! ## The catalog as a schema -/

private def fieldOf (column : Column) : Field :=
  { name := column.name, type := column.kind.scalarType, nullable := column.nullable && !column.isKey
    unique := column.unique, isKey := column.isKey }

def relationOf (c : Catalog) (l : Link) : Relation :=
  let r : Relation :=
    { name := l.name, target := c.entityOf l.target, cardinality := if l.isList then .many else .one }
  match l.kind with
  | .holds column => { r with fields := [column], references := [l.keyColumn] }
  | .heldBy column _ => { r with references := [column] }
  | .through _ => r

/-- A link among the fields: it can be null unless it is a list or its column cannot. -/
private def linkField (c : Catalog) (m : Model) (l : Link) : Field :=
  let nullable := match l.kind with
    | .holds column => ((m.column? column).map fieldOf).all (·.nullable)
    | _ => true
  { name := l.name, kind := .relation, type := c.entityOf l.target
    nullable := nullable && !l.isList, isList := l.isList }

def entity (c : Catalog) (name : String) (m : Model) : Entity :=
  { name, keys := m.keys
    fields := m.columns.map fieldOf ++ m.links.map (c.linkField m)
    relations := m.links.map c.relationOf }

def schema (c : Catalog) : Schema := ⟨c.models.map fun (name, m) => (name, .ok (c.entity name m))⟩

/-! ## Order of the tables -/

/-- Whether rows of `m` hold keys of rows of the named model. -/
private def dependsOn (models : List Model) (m : Model) (name : String) : Bool :=
  m.name != name && (
    m.links.any (fun l => l.target == name && (match l.kind with | .holds _ => true | _ => false))
    || models.any fun p => p.name == name && p.links.any fun l =>
        l.target == m.name && (match l.kind with | .heldBy .. => true | _ => false))

def sortModels (all : List Model) : Nat → List Model → List Model
  | 0, rest => rest
  | n + 1, rest =>
    let ready := rest.filter fun m => !rest.any fun p => dependsOn all m p.name
    let blocked := rest.filter fun m => rest.any fun p => dependsOn all m p.name
    if ready.isEmpty then rest else ready ++ sortModels all n blocked

/-- The models, those whose keys are held before those that hold them. -/
def inOrder (c : Catalog) : List Model :=
  let all := c.models.map Prod.snd
  sortModels all all.length all

end Catalog

end RecordGraph
