import RecordGraph.Failure.Basic
import RecordGraph.Text.Folding
import RecordGraph.Time.Reading
import RecordGraph.Value.Display

/-!
# Columns

The kind of a column decides the scalar type of its field and how a value that is given for it is
coerced. Coercion reads texts; values that are not of the kind and are no text pass as they are, and
it is left to the engine to refuse them.
-/

namespace RecordGraph

inductive ColumnKind where
  | integer
  | text
  | real
  | decimal
  | boolean
  | date
  | datetime
  | json
  | enumeration
  | other
deriving Repr, DecidableEq, Inhabited

namespace ColumnKind

/-- The kind of a declared type, in whatever case its name is written. -/
def ofTypeName (name : String) : ColumnKind :=
  match String.ofList (lowerText name) with
  | "integer" | "biginteger" | "smallinteger" => .integer
  | "string" | "text" | "varchar" => .text
  | "float" | "double" => .real
  | "numeric" | "decimal" => .decimal
  | "boolean" => .boolean
  | "date" => .date
  | "datetime" | "timestamp" => .datetime
  | "json" | "jsonb" => .json
  | "enum" => .enumeration
  | _ => .other

/-- The scalar type of a field; kinds without one of their own count as strings. -/
def scalarType : ColumnKind → String
  | .integer => "int"
  | .text | .other => "string"
  | .real => "float"
  | .decimal => "decimal"
  | .boolean => "bool"
  | .date => "date"
  | .datetime => "datetime"
  | .json => "json"
  | .enumeration => "enum"

/-- A moment, in which `Z` stands for the offset zero. -/
private def moment? (s : String) : Option DateTime :=
  DateTime.read? (s.toList.flatMap fun c => if c = 'Z' then "+00:00".toList else [c])

private def boolean? (s : String) : Option Bool :=
  let word := lowerText s
  if word = "true".toList then some true
  else if word = "false".toList then some false
  else none

/-- The value as a column of the kind takes it, unless it is a text that does not read as such. -/
def coerce? : ColumnKind → Value → Option Value
  | .text, .int n => some (.text (Value.int n).shown)
  | .text, .float x => some (.text x.text)
  | .date, .datetime t => some (.date t.date)
  | .date, .text s => (Date.read? (s.toList.take 10)).map .date
  | .datetime, .text s => (moment? s).map .datetime
  | .datetime, .date d => some (.datetime (.midnight d))
  | .integer, .text s => (readInteger? s.toList).map .int
  | .integer, .float x => some ((x.toInt?.map Value.int).getD (.float x))
  | .real, .text s => (readFloat? s.toList).map .float
  | .decimal, .text s => (Decimal.read? s.toList).map .decimal
  | .decimal, .int n => some (.decimal (.ofInt n))
  | .boolean, .text s => (boolean? s).map .bool
  | _, v => some v

end ColumnKind

structure Column where
  name : String
  kind : ColumnKind
  nullable : Bool := true
  unique : Bool := false
  /-- Whether it is part of the primary key. -/
  isKey : Bool := false
  /-- What a new row has where nothing is given. -/
  default? : Option Value := none
deriving Repr, Inhabited

namespace Column

/-- The value as the column takes it. -/
def coerce (c : Column) (v : Value) : Except Failure Value :=
  match c.kind.coerce? v with
  | some w => pure w
  | none =>
    throw (.faultOf .invalidValue ("Invalid value for " ++ c.name ++ ": " ++ v.literalText)
      [("target", .text c.name)])

end Column

end RecordGraph
