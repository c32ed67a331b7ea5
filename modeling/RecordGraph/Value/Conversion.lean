import RecordGraph.Text.Folding
import RecordGraph.Text.Numeral
import RecordGraph.Value.Equality

/-!
# Conversions

A value of one type that stands for a value of another: numbers and switches may come as texts, as
they do from a request or the environment.
-/

namespace RecordGraph

namespace Value

/-- The integer that a value stands for. A text may end in a point and zeros. -/
def toWhole? : Value → Option Int
  | .bool b => some (if b then 1 else 0)
  | .int n => some n
  | .float x => x.toInt?
  | .decimal d => d.toBinary64.toInt?
  | .text s =>
    match cutAt '.' (trim s.toList) with
    | (whole, none) => readInteger? whole
    | (whole, some zeros) => if zeros.all (· == '0') then readInteger? whole else none
  | _ => none

def toDouble? : Value → Option Binary64
  | .bool b => some (.ofInt (if b then 1 else 0))
  | .int n => some (.ofInt n)
  | .float x => some x
  | .decimal d => some d.toBinary64
  | .text s => readFloat? s.toList
  | _ => none

private def yesWords : List String := ["true", "1", "yes", "on", "t", "y"]

private def noWords : List String := ["false", "0", "no", "off", "f", "n"]

/-- The truth value that a value stands for: one and zero do, and some words in any case. -/
def toSwitch? : Value → Option Bool
  | .text s =>
    let word := String.ofList (lowerText s)
    if yesWords.contains word then some true else if noWords.contains word then some false else none
  | v => if v.same (.bool true) then some true else if v.same (.bool false) then some false else none

end Value

end RecordGraph
