import RecordGraph.Failure.Basic
import RecordGraph.Text.Numeral
import RecordGraph.Text.Percent
import RecordGraph.Time.Reading
import RecordGraph.Value.Json

/-!
# Operands of a filter clause

The right side of a clause is a number, a moment, a list or a text, with an operator word in front
or per cent signs around it. Each reader here turns an operand of its kind into a condition: an
object of operators, such as `gte` and `lte` for a range.
-/

namespace RecordGraph

namespace Operand

/-- The text after an operator word, if the operand starts with it. -/
def after? (word : String) (cs : List Char) : Option (List Char) := dropStart? word.toList cs

/-- The first of some operator words that an operand starts with, and the text after it. -/
def splitWord? (words : List (String × α)) (cs : List Char) : Option (α × List Char) :=
  words.findSome? fun (word, meaning) => (after? word cs).map (meaning, ·)

/-! ## Numbers -/

/-- A whole number as an integer, any other as it is. -/
def ofNumber (x : Binary64) : Value :=
  match x.toInt? with
  | some n => .int n
  | none => .float x

/-- The longest decimal number at the start, after blanks and a sign, and the text behind it. -/
def numberPrefix? (cs : List Char) : Option (Binary64 × List Char) := do
  let (negative, unsigned) := spanSign (trimStart cs)
  let (n, rest) ← spanNumeral unsigned
  some (.ofDecimal negative n.digits n.scale, rest)

def leadingNumber? (cs : List Char) : Option Binary64 := (numberPrefix? cs).map Prod.fst

/-- The number at the start of an operand, if there is one. Where a blank in front of it is none that may stand
beside a numeral it cannot be read. -/
def startingNumber? (cs : List Char) : Except Failure (Option Binary64) :=
  match leadingNumber? cs with
  | none => pure none
  | some x => if (cs.takeWhile isBlank).all isMargin then pure (some x) else throw .illFormed

/-- Whether a text is one decimal number, blanks aside. -/
def isNumber (cs : List Char) : Bool :=
  match numberPrefix? cs with
  | some (_, rest) => rest.all isBlank
  | none => false

/-- What is left after the decimal digits at the start, if there is at least one. -/
def afterDigits? (cs : List Char) : Option (List Char) :=
  match spanDigits cs with
  | ([], _) => none
  | (_, rest) => some rest

/-- Whether nothing is left but the end of a line. -/
private def atEnd (cs : List Char) : Bool := cs == [] || cs == ['\n']

/-- Whether a text is a number in plain digits: no exponent, no sign but a minus. -/
def isPlainNumber (cs : List Char) : Bool :=
  let unsigned := (after? "-" cs).getD cs
  match afterDigits? unsigned with
  | none => false
  | some ('.' :: rest) => (afterDigits? rest).any atEnd
  | some rest => atEnd rest

inductive NumberWord where
  | compare (operator : String)
  | between
deriving Repr, DecidableEq

def numberWords : List (String × NumberWord) :=
  [("lt:", .compare "lt"), ("lte:", .compare "lte"), ("gt:", .compare "gt"),
   ("gte:", .compare "gte"), ("eq:", .compare "equals"), ("ne:", .compare "not"),
   ("between:", .between)]

/-- Whether an operand is a number or starts with an operator word for numbers. -/
def looksLikeNumber (cs : List Char) : Bool := isNumber cs || (splitWord? numberWords cs).isSome

def parts (cs : List Char) : List (List Char) := (splitAt ';' cs).map trim

/-- The condition of numbers, behind an operator word or without one. -/
def number? (cs : List Char) : Except Failure (Option Object) :=
  match splitWord? numberWords cs with
  | some (.between, rest) => do
    let start ← startingNumber? ((parts rest).headD [])
    let stop ← startingNumber? ((parts rest)[1]?.getD [])
    return start.bind fun low => stop.map fun high => [("gte", ofNumber low), ("lte", ofNumber high)]
  | some (.compare operator, rest) => do
    return (← startingNumber? rest).map fun x => [(operator, ofNumber x)]
  | none => do return (← startingNumber? cs).map fun x => [("equals", ofNumber x)]

/-- The condition of an operand that looks like a number. -/
def numeric? (cs : List Char) : Except Failure (Option Object) :=
  if looksLikeNumber cs then number? cs else pure none

/-! ## Moments -/

/-- A day or a moment in ISO 8601; a final `Z` stands for UTC. -/
def moment? (cs : List Char) : Option DateTime :=
  let cs := trim cs
  match cs.reverse with
  | 'Z' :: rest => DateTime.read? (rest.reverse ++ "+00:00".toList)
  | _ => DateTime.read? cs

private def digitsThen? : Nat → List Char → Option (List Char)
  | 0, cs => some cs
  | n + 1, c :: cs => if isDecimal c then digitsThen? n cs else none
  | _ + 1, [] => none

/-- Whether a text has the shape of a date, possibly with a time of any shape. -/
def isDateShaped (cs : List Char) : Bool :=
  let rest := do
    let cs ← after? "-" (← digitsThen? 4 cs)
    let cs ← after? "-" (← digitsThen? 2 cs)
    digitsThen? 2 cs
  match rest with
  | none => false
  | some ('T' :: time) =>
    let time := match time.reverse with
      | '\n' :: rest => rest
      | rest => rest
    !time.contains '\n'
  | some rest => atEnd rest

def looksLikeDateRange (cs : List Char) : Bool :=
  (cs.contains '-' && cs.contains 'T')
    || (parts (cs.drop "between:".length)).any isDateShaped

def range (cs : List Char) : Except Failure (List Char × List Char) :=
  match parts cs with
  | start :: stop :: _ =>
    if start.isEmpty ∨ stop.isEmpty then throw (.validation "between_requires_two_values")
    else pure (start, stop)
  | _ => throw (.validation "between_requires_two_values")

inductive MomentWord where
  | compare (operator : String)
  | on
  | between
deriving Repr, DecidableEq

def momentWords : List (String × MomentWord) :=
  [("before:", .compare "lt"), ("after:", .compare "gt"), ("from:", .compare "gte"),
   ("to:", .compare "lte"), ("on:", .on), ("between:", .between)]

private def invalidDate (whole : List Char) : Failure :=
  .validation "invalid_date_format"
    (some [("value", .text (.ofList whole)), ("error", .text "Not an ISO 8601 date or time")])

def moment (whole cs : List Char) : Except Failure DateTime :=
  match moment? cs with
  | some t => pure t
  | none => throw (invalidDate whole)

/-- The condition of an operand that starts with an operator word for moments. A range between two
plain numbers is left to the numeric reader; a day that has no next one is out of reach. -/
def datetime? (cs : List Char) : Except Failure (Option Object) :=
  match splitWord? momentWords cs with
  | none => pure none
  | some (.compare operator, rest) => do return some [(operator, .datetime (← moment cs rest))]
  | some (.on, rest) => do
    let day := (← moment cs rest).startOfDay
    match day.addDays? 1 with
    | some next => return some [("gte", .datetime day), ("lt", .datetime next)]
    | none => throw .illFormed
  | some (.between, rest) => do
    let (start, stop) ← range rest
    if isPlainNumber start && isPlainNumber stop then return none
    let start ← moment cs start
    return some [("gte", .datetime start), ("lte", .datetime (← moment cs stop))]

/-! ## Texts and lists -/

/-- The condition of a text: per cent signs at its ends leave those ends open, and escapes are
resolved. -/
def text (cs : List Char) : Value :=
  let one (operator : String) (cs : List Char) : Value :=
    .object [(operator, .text (.ofList (percentDecode cs)))]
  if cs = "true".toList then .bool true
  else if cs = "false".toList then .bool false
  else
    let opened := startsWith ['%'] cs
    let closed := endsWith ['%'] cs
    if opened && closed && 1 < cs.length then one "contains" (cs.drop 1).dropLast
    else if opened then one "endsWith" (cs.drop 1)
    else if closed then one "startsWith" cs.dropLast
    else one "equals" cs

/-- The items of a bracketed list: JSON if it is, the trimmed parts between commas otherwise. -/
def items (cs : List Char) : List Value :=
  match Value.ofJson? cs with
  | some (.list vs) => vs
  | _ => (splitAt ',' (cs.drop 1).dropLast).map fun part => .text (.ofList (trim part))

def isBracketed (cs : List Char) : Bool := startsWith ['['] cs && endsWith [']'] cs

/-- Whether one of the items is a text with a per cent sign. -/
def hasWildcard (items : List Value) : Bool :=
  items.any fun
    | .text s => s.toList.contains '%'
    | _ => false

end Operand

end RecordGraph
