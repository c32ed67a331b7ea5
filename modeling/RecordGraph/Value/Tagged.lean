import RecordGraph.Time.Reading
import RecordGraph.Value.Json
import RecordGraph.Value.Display

/-!
# Tagged JSON

JSON has no doubles, decimals, days and moments, and few readers keep an integer beyond `2 ^ 53`.
In tagged JSON such a value is an object of one member, whose name tells its kind and whose text
reads back as the value.
-/

namespace RecordGraph

namespace Value

/-- The value that a tagged object stands for. -/
def untagOne (v : Value) : Value :=
  let found : Option Value := match v with
    | .object [("$float", .text s)] => (readFloat? s.toList).map .float
    | .object [("$int", .text s)] => s.toInt?.map .int
    | .object [("$dt", .text s)] => (DateTime.read? s.toList).map .datetime
    | .object [("$date", .text s)] => (Date.read? s.toList).map .date
    | .object [("$dec", .text s)] => (Decimal.read? s.toList).map .decimal
    | _ => none
  found.getD v

mutual

/-- The value with its tagged objects read. -/
def untag : Value → Value
  | .list vs => .list (untagItems vs)
  | .object o => untagOne (.object (untagMembers o))
  | v => v

def untagItems : List Value → List Value
  | [] => []
  | v :: vs => untag v :: untagItems vs

def untagMembers : List (String × Value) → List (String × Value)
  | [] => []
  | (k, v) :: rest => (k, untag v) :: untagMembers rest

end

private def tagged (name : String) (s : String) : Value := .object [(name, .text s)]

mutual

/-- The value as plain JSON, with tagged objects for what JSON lacks. -/
def tag : Value → Value
  | .int n => if n.natAbs ≤ 0x20000000000000 then .int n else tagged "$int" (Value.int n).shown
  | .float x => tagged "$float" x.text
  | .decimal d => tagged "$dec" d.text
  | .date d => tagged "$date" d.text
  | .datetime t => tagged "$dt" t.text
  | .list vs => .list (tagItems vs)
  | .object o => .object (tagMembers o)
  | v => v

def tagItems : List Value → List Value
  | [] => []
  | v :: vs => tag v :: tagItems vs

def tagMembers : List (String × Value) → List (String × Value)
  | [] => []
  | (k, v) :: rest => (k, tag v) :: tagMembers rest

end

end Value

end RecordGraph
