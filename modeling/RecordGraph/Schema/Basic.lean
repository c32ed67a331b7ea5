import RecordGraph.Failure.Basic
import RecordGraph.Text.Split

/-!
# Schemas

Entities have keys, fields and relations. A relation on the owning side names the local fields that
hold the key of the target; on the other side it names the fields of the target that hold the key of
this entity. Every relation is also listed among the fields, as a field of its own kind.
-/

namespace RecordGraph

inductive FieldKind where
  | scalar
  | relation
deriving Repr, DecidableEq, Inhabited

structure Field where
  name : String
  kind : FieldKind := .scalar
  /-- The scalar type; the target entity for a relation. -/
  type : String := "string"
  nullable : Bool := true
  unique : Bool := false
  isKey : Bool := false
  isList : Bool := false
deriving Repr, DecidableEq, Inhabited

namespace Field

def isRelation (f : Field) : Bool := f.kind == .relation

def required (f : Field) : Bool := !f.nullable

end Field

inductive Cardinality where
  | one
  | many
deriving Repr, DecidableEq, Inhabited

structure Relation where
  name : String
  target : String
  cardinality : Cardinality
  /-- Local fields that hold the key of the target. -/
  fields : List String := []
  /-- Fields of the target: those that `fields` refer to, or those that hold the key of this
  entity. -/
  references : List String := []
deriving Repr, DecidableEq, Inhabited

namespace Relation

def isList (r : Relation) : Bool := r.cardinality == .many

/-- The first local field that holds the key of the target. -/
def field? (r : Relation) : Option String := r.fields.head?

/-- The field of the target that the first local field refers to. -/
def foreignKey? (r : Relation) : Option String :=
  match r.fields with
  | [] => none
  | _ :: _ => some (r.references.headD "id")

end Relation

structure Entity where
  name : String
  keys : List String
  fields : List Field
  relations : List Relation
deriving Repr, DecidableEq, Inhabited

namespace Entity

def field? (e : Entity) (name : String) : Option Field := e.fields.find? fun f => f.name == name

def hasField (e : Entity) (name : String) : Bool := (e.field? name).isSome

def relation? (e : Entity) (name : String) : Option Relation :=
  e.relations.find? fun r => r.name == name

/-- The relation whose key is held, first of all, by the named field. -/
def relationForField? (e : Entity) (field : String) : Option Relation :=
  e.relations.find? fun r => r.field? == some field

def isComposite (e : Entity) : Bool := 1 < e.keys.length

/-- The name under which the whole key is addressed. -/
def keyName (e : Entity) : String := joinTexts "_" e.keys

def firstKey (e : Entity) : String := e.keys.headD "id"

def scalars (e : Entity) : List Field := e.fields.filter fun f => !f.isRelation

end Entity

/-- The entities by name. One that is declared wrongly fails whenever it is looked at, and only
then. -/
structure Schema where
  entities : List (String × Except Failure Entity)
deriving Inhabited

namespace Schema

def names (s : Schema) : List String := s.entities.map Prod.fst

def hasEntity (s : Schema) (name : String) : Bool := s.names.contains name

def entity (s : Schema) (name : String) : Except Failure Entity :=
  match s.entities.lookup name with
  | some e => e
  | none => .error (.schema ("Unknown entity: " ++ name))

def keys (s : Schema) (entity : String) : Except Failure (List String) := (s.entity entity).map (·.keys)

def relation? (s : Schema) (entity name : String) : Except Failure (Option Relation) :=
  (s.entity entity).map (·.relation? name)

def relationForField? (s : Schema) (entity field : String) : Except Failure (Option Relation) :=
  (s.entity entity).map (·.relationForField? field)

/-- The key of a join table that a list relation leads to: one of several fields, with every
back-reference among them. -/
def joinKey? (s : Schema) (r : Relation) : Except Failure (Option (List String)) := do
  if !r.isList || r.references.isEmpty then return none
  let keys ← s.keys r.target
  return if 1 < keys.length ∧ r.references.all keys.contains then some keys else none

/-- The field of the target by which a relation to one record is connected. -/
def connectKey (s : Schema) (r : Relation) : Except Failure String :=
  match r.foreignKey? with
  | some key => if key = "" then firstKey else pure key
  | none => firstKey
where
  firstKey : Except Failure String := (s.entity r.target).map (·.firstKey)

end Schema

end RecordGraph
