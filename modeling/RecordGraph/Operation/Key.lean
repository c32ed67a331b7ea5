import RecordGraph.Schema.Basic
import RecordGraph.Text.Numeral
import RecordGraph.Value.Display

/-!
# Record keys

A record is addressed by its key: a value, an object of values, or, for a key of several fields, a
text with a tilde between the parts. Texts are read as the types of the key fields.
-/

namespace RecordGraph

namespace Key

/-- The value that a part of a key stands for in a field of some type. -/
def readPart (type part : String) : Except Failure Value :=
  let invalid : Failure :=
    .validation "invalid_id" (some [("value", .text part), ("type", .text type)])
  match type with
  | "int" => match readInteger? part.toList with
    | some n => pure (.int n)
    | none => throw invalid
  | "float" | "decimal" => match readFloat? part.toList with
    | some x => pure (.float x)
    | none => throw invalid
  | "bool" => pure (.bool (part == "true"))
  | _ => pure (.text part)

private def typeOf (e : Entity) (field : String) : String := ((e.field? field).map (·.type)).getD ""

/-- The condition that addresses the record with an id. -/
def whereId (s : Schema) (entity : String) (id : Value) : Except Failure Object := do
  let e ← s.entity entity
  if !e.isComposite then
    match id with
    | .text part => return [(e.firstKey, ← readPart (typeOf e e.firstKey) part)]
    | id => return [(e.firstKey, id)]
  let malformed : Failure :=
    .validation "invalid_composite_key_format"
      (some [("message", .text "Composite key requires either an object or tilde-separated string"),
        ("fields", .texts e.keys)])
  match id with
  | .object parts => return [(e.keyName, .object parts)]
  | .text joined =>
    if !joined.toList.contains '~' then throw malformed
    let parts := splitText '~' joined
    if parts.length ≠ e.keys.length then
      throw (.validation "invalid_composite_key"
        (some [("expected", .texts e.keys), ("received", .int parts.length)]))
    let values ← (e.keys.zip parts).mapM fun (k, part) => return (k, ← readPart (typeOf e k) part)
    return [(e.keyName, .object (Object.ofMembers values))]
  | _ => throw malformed

/-- The field or fields by which a record is told from others. -/
inductive UniqueKey where
  | single (field : String)
  | compound (fields : List String)
deriving Repr, DecidableEq, Inhabited

namespace UniqueKey

def ofValue : Value → Except Failure UniqueKey
  | .text field => pure (.single field)
  | .list fields => do
    return .compound (← fields.mapM fun
      | .text f => pure f
      | _ => throw .illFormed)
  | _ => throw .illFormed

def toValue : UniqueKey → Value
  | .single field => .text field
  | .compound fields => .texts fields

def fields : UniqueKey → List String
  | .single field => [field]
  | .compound fields => fields

def ofEntity (e : Entity) : UniqueKey := if e.isComposite then .compound e.keys else .single e.firstKey

/-- The condition that addresses the record with the values of the payload. -/
def condition (key : UniqueKey) (payload : Object) : Object :=
  match key with
  | .single field => [(field, Object.get payload field)]
  | .compound fields =>
    [(joinTexts "_" fields, .object (Object.ofMembers (fields.map fun f => (f, Object.get payload f))))]

def texts (key : UniqueKey) (record : Object) : List String :=
  key.fields.map fun f => (Object.get record f).shown

/-- Whether a record has a value for every field of the key. -/
def isGiven (key : UniqueKey) (record : Object) : Bool :=
  key.fields.all fun f => !(Object.get record f).isNull

end UniqueKey

/-- The value under which a condition addresses a record. -/
def idOf (condition : Object) : Value :=
  match condition with
  | [] => .null
  | (_, v) :: _ => v

/-- Whether two records have the same text in every key field. -/
def agree (keys : List String) (a b : Object) : Bool :=
  !a.isEmpty && !b.isEmpty && keys.all fun k =>
    !(Object.get a k).isNull && (Object.get a k).shown == (Object.get b k).shown

end Key

end RecordGraph
