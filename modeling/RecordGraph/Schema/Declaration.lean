import RecordGraph.Schema.Basic
import RecordGraph.Value.Display
import RecordGraph.Value.Equality
import RecordGraph.Value.Json

/-!
# Declared schemas

Reads the entities of a graph: an object of entities, each with its keys, fields and relations.
A field type that ends in question marks is nullable.
-/

namespace RecordGraph

namespace Declaration

/-- The members of an object; anything that counts as absent has none. -/
def members (v : Value) : Except Failure Object :=
  match v with
  | .object o => pure o
  | v => if v.isPresent then .error .illFormed else pure []

/-- The items of a list, or the characters of a text. -/
def items (v : Value) : Except Failure (List Value) :=
  match v with
  | .list vs => pure vs
  | .text s => pure (s.toList.map fun c => .text (String.singleton c))
  | .object o => pure (o.map fun kv => .text kv.1)
  | v => if v.isPresent then .error .illFormed else pure []

def text : Value → Except Failure String
  | .text s => pure s
  | _ => .error .illFormed

def textItems (v : Value) : Except Failure (List String) := do (← items v).mapM text

private def dropMarks (type : String) : String :=
  .ofList (type.toList.reverse.dropWhile (· == '?')).reverse

def field (keys : List Value) (name : String) (declared : Value) : Except Failure Field := do
  let o ← members declared
  let type ← text ((Object.get? "type" o).getD (.text "string"))
  let marked := endsWith ['?'] type.toList
  let nullable := match Object.get? "nullable" o with
    | some v => v.isPresent
    | none => marked
  let isKey := keys.any (Value.same (.text name))
  return {
    name
    type := dropMarks type
    nullable := nullable && !isKey
    unique := (Object.get o "unique").isPresent
    isKey }

private def cardinality (path : String) (declared : Option Value) : Except Failure Cardinality :=
  match declared with
  | none | some (.text "many") => pure .many
  | some (.text "one") => pure .one
  | some v => .error (.schema ("Relation '" ++ path ++ "' has invalid cardinality: " ++ v.shown))

def relation (entity name : String) (declared : Value) : Except Failure Relation := do
  let o ← members declared
  let path := entity ++ "." ++ name
  let target := Object.get o "target"
  if !target.isPresent then throw (.schema ("Relation '" ++ path ++ "' has no target"))
  let cardinality ← cardinality path (Object.get? "cardinality" o)
  let ref := Object.get o "ref"
  if ref.isPresent then
    let r ← members ref
    let source ← text (Object.get r "from_field")
    let key ← text ((Object.get? "to_field" r).getD (.text "id"))
    return ⟨name, ← text target, cardinality, [source], [key]⟩
  else
    let fields ← textItems (Object.get o "fields")
    let references ← textItems (Object.get o "references")
    return ⟨name, ← text target, cardinality, fields, references⟩

private def relationField (r : Relation) (declared : Value) : Field :=
  let nullable := match declared with
    | .object o => (Object.get? "nullable" o).all Value.isPresent
    | _ => true
  { name := r.name
    kind := .relation
    type := r.target
    nullable := !r.isList && nullable
    isList := r.isList }

/-- Puts a field in the place of the one of the same name, or at the end. -/
def setField (f : Field) : List Field → List Field
  | [] => [f]
  | g :: gs => if g.name = f.name then f :: gs else g :: setField f gs

def entity (name : String) (declared : Value) : Except Failure Entity := do
  let o ← members declared
  let keyed := Object.get o "keys"
  let keys ← if keyed.isPresent then items keyed else pure [.text "id"]
  let fields ← (← members (Object.get o "fields")).mapM fun (n, d) => field keys n d
  let declaredRelations ← members (Object.get o "relations")
  let relations ← declaredRelations.mapM fun (n, d) => return (← relation name n d, d)
  let fields := relations.foldl (fun fs (r, d) => setField (relationField r d) fs) fields
  let missing := keys.filter fun k => !fields.any fun f => Value.same (.text f.name) k
  if !missing.isEmpty then
    throw (.schema ("Entity '" ++ name ++ "' key fields not declared: "
      ++ (Value.list missing).literalText))
  return ⟨name, ← keys.mapM text, fields, relations.map Prod.fst⟩

end Declaration

/-- The schema that a graph declares. -/
def Schema.ofGraph (graph : Value) : Except Failure Schema := do
  let .object o := graph | throw .illFormed
  match (Object.get? "entities" o).getD (.object []) with
  | .object declared => return ⟨declared.map fun (n, d) => (n, Declaration.entity n d)⟩
  | _ => throw .illFormed

/-- The schema of a graph file; an empty text is an empty graph. -/
def Schema.ofText (text : String) : Except Failure Schema := do
  if (trimText text).isEmpty then ofGraph (.object [])
  else match Value.ofJson? text.toList with
    | some v => ofGraph (if v.isPresent then v else .object [])
    | none => throw .illFormed

end RecordGraph
