import RecordGraph.Relational.Column
import RecordGraph.Value.Equality

/-!
# Cells

What a table holds. An engine has four storage classes; days and moments are kept as texts whose
order is that of time, truth values as `1` and `0`, and a NaN as null. Any number comes before any
text.
-/

namespace RecordGraph

inductive Cell where
  | null
  | integer (n : Int)
  | real (x : Binary64)
  | text (s : String)
deriving Repr, DecidableEq, Inhabited

namespace Cell

def isNull : Cell → Bool
  | .null => true
  | _ => false

def ofBool (b : Bool) : Cell := .integer (if b then 1 else 0)

/-- The cell of a double. -/
def ofDouble : Binary64 → Cell
  | .nan => .null
  | x => .real x

/-- The form in which a cell is matched as text. -/
def shown : Cell → String
  | .null => ""
  | .integer n => (Value.int n).shown
  | .real x => x.columnText
  | .text s => s

/-! ## Order -/

def compareDoubles (x y : Binary64) : Ordering :=
  match x.toFraction?, y.toFraction? with
  | some f, some g => f.compare g
  | none, none => if x == y then .eq else if x.isNegative then .lt else .gt
  | none, some _ => if x.isNegative then .lt else .gt
  | some _, none => if y.isNegative then .gt else .lt

private def compareToDouble (n : Int) (y : Binary64) : Ordering :=
  match y.toFraction? with
  | some g => (Fraction.ofInt n).compare g
  | none => if y.isNegative then .gt else .lt

/-- The order of cells; nulls come first. -/
def order : Cell → Cell → Ordering
  | .null, .null => .eq
  | .null, _ => .lt
  | _, .null => .gt
  | .integer m, .integer n => compare m n
  | .real x, .real y => compareDoubles x y
  | .integer m, .real y => compareToDouble m y
  | .real x, .integer n => (compareToDouble n x).swap
  | .text s, .text t => compare s t
  | .text _, _ => .gt
  | _, .text _ => .lt

/-- Whether two cells are equal; nothing equals null. -/
def same (a b : Cell) : Bool := !a.isNull && !b.isNull && a.order b == .eq

/-- The lexicographic order of lists of cells. -/
def orderLists : List Cell → List Cell → Ordering
  | [], [] => .eq
  | [], _ => .lt
  | _, [] => .gt
  | a :: as, b :: bs => (a.order b).then (orderLists as bs)

end Cell

/-! ## Binding -/

/-- A value that the engine does not take for its kind. -/
def refused (message : String) : Failure := .engine { kind := .statement, message }

namespace ColumnKind

/-- The kind that a value is of by itself. -/
def ofValue? : Value → Option ColumnKind
  | .bool _ => some .boolean
  | .int _ => some .integer
  | .float _ => some .real
  | .decimal _ => some .decimal
  | .date _ => some .date
  | .datetime _ => some .datetime
  | .text _ => some .text
  | .null | .list _ | .object _ => none

/-- The text of a moment in a column: without offset, with six digits of a second. -/
def momentText (t : DateTime) : String :=
  .ofList (t.date.chars ++ ' ' :: padded 2 t.hour ++ ':' :: padded 2 t.minute
    ++ ':' :: padded 2 t.second ++ '.' :: padded 6 t.microsecond)

/-- The greatest integer of a cell. -/
def greatestInteger : Int := 0x7fffffffffffffff

/-- A value that is handed to the engine as it is. -/
def bindPlain : Value → Except Failure Cell
  | .null => pure .null
  | .bool b => pure (.ofBool b)
  | .int n => if n < -greatestInteger - 1 ∨ greatestInteger < n then throw .illFormed else pure (.integer n)
  | .float x => pure (.ofDouble x)
  | .text s => pure (.text s)
  | .date d => pure (.text d.text)
  | .datetime t => pure (.text (Value.datetime t).shown)
  | v => throw (.engine { kind := .programming, message := "Error binding parameter: " ++ v.kindName })

def bindReal : Value → Except Failure Cell
  | .null => pure .null
  | .bool b => pure (.real (.ofInt (if b then 1 else 0)))
  | .int n =>
    match Binary64.ofInt n with
    | .infinite _ => throw (refused "int too large to convert to float")
    | x => pure (.real x)
  | .float x => pure (.ofDouble x)
  | .decimal d => pure (.ofDouble d.toBinary64)
  | .text s =>
    match readFloat? s.toList with
    | some x => pure (.ofDouble x)
    | none => throw (refused "could not convert string to float")
  | _ => throw (refused "a real number is required")

def bindBoolean (v : Value) : Except Failure Cell :=
  if v.isNull then pure .null
  else if v.same (.bool true) then pure (.ofBool true)
  else if v.same (.bool false) then pure (.ofBool false)
  else throw (refused ("Not a boolean value: " ++ v.literalText))

def bindDate : Value → Except Failure Cell
  | .null => pure .null
  | .date d => pure (.text d.text)
  | .datetime t => pure (.text t.date.text)
  | _ => throw (refused "a date is required")

def bindMoment : Value → Except Failure Cell
  | .null => pure .null
  | .date d => pure (.text (momentText (.midnight d)))
  | .datetime t => pure (.text (momentText t))
  | _ => throw (refused "a date or datetime is required")

/-- The cell that a value is handed to the engine as. -/
def bind : ColumnKind → Value → Except Failure Cell
  | .real | .decimal => bindReal
  | .boolean => bindBoolean
  | .date => bindDate
  | .datetime => bindMoment
  | _ => bindPlain

/-- The cell of an operand, which is bound by its own kind if it has one. -/
def bindOperand (k : ColumnKind) (v : Value) : Except Failure Cell := ((ofValue? v).getD k).bind v

/-- The cell as a column of the kind keeps it, and as it is compared with: a column of texts has no
numbers, and one of integers has no whole double that is an integer of a cell. -/
def keep : ColumnKind → Cell → Cell
  | .text, .integer n => .text (Cell.integer n).shown
  | .text, .real x => .text x.columnText
  | .integer, .real x =>
    match x.toInt? with
    | some n => if n < -greatestInteger - 1 ∨ greatestInteger < n then .real x else .integer n
    | none => .real x
  | _, c => c

/-- The value that a cell of the column reads as. -/
def read : ColumnKind → Cell → Value
  | _, .null => .null
  | .boolean, .integer n => .bool (n != 0)
  | .boolean, .real x => .bool (!x.isZero)
  | .date, .text s => ((Date.read? s.toList).map Value.date).getD (.text s)
  | .datetime, .text s => ((DateTime.read? s.toList).map Value.datetime).getD (.text s)
  | _, .integer n => .int n
  | _, .real x => .float x
  | _, .text s => .text s

end ColumnKind

end RecordGraph
