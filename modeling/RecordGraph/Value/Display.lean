import RecordGraph.Value.Basic
import RecordGraph.Text.Split

/-!
# Values as text

`shown` is the text that a value has in a message or as a key. `literal` is its quoted form, which
is also the form of the values inside a list or an object.
-/

namespace RecordGraph

private def commaList (parts : List (List Char)) : List Char := joinWith [',', ' '] parts

private def call (name : String) (arguments : List (List Char)) : List Char :=
  name.toList ++ '(' :: commaList arguments ++ [')']

private def natural (n : Nat) : List Char := Significand.digitsOf n

private def integer (n : Int) : List Char := if n < 0 then '-' :: natural n.natAbs else natural n.natAbs

private def named (name : String) (value : List Char) : List Char := name.toList ++ '=' :: value

/-- The literal of an offset from UTC; a negative one counts from the day before. -/
private def offsetLiteral (offset : Int) : List Char :=
  if offset = 0 then "datetime.timezone.utc".toList
  else
    let day : Int := 86400 * 1000000
    let days := offset / day
    let rest := (offset % day).toNat
    let parts :=
      (if days = 0 then [] else [named "days" (integer days)])
        ++ (if rest / 1000000 = 0 then [] else [named "seconds" (natural (rest / 1000000))])
        ++ (if rest % 1000000 = 0 then [] else [named "microseconds" (natural (rest % 1000000))])
    call "datetime.timezone" [call "datetime.timedelta" parts]

/-- The literal of a moment; seconds and microseconds are left out from the end while zero. -/
private def momentLiteral (t : DateTime) : List Char :=
  let tail :=
    if t.microsecond ≠ 0 then [natural t.second, natural t.microsecond]
    else if t.second ≠ 0 then [natural t.second] else []
  call "datetime.datetime"
    ([t.date.year, t.date.month, t.date.day, t.hour, t.minute].map natural ++ tail
      ++ (match t.offset with
        | some o => [named "tzinfo" (offsetLiteral o)]
        | none => []))

namespace Value

mutual

def literal : Value → List Char
  | .null => "None".toList
  | .bool b => if b then "True".toList else "False".toList
  | .int n => integer n
  | .float x => x.text.toList
  | .decimal d => call "Decimal" [quoted d.text]
  | .date d => call "datetime.date" ([d.year, d.month, d.day].map natural)
  | .datetime t => momentLiteral t
  | .text s => quoted s
  | .list items => '[' :: commaList (itemLiterals items) ++ [']']
  | .object members => '\x7b' :: commaList (memberLiterals members) ++ ['\x7d']

def itemLiterals : List Value → List (List Char)
  | [] => []
  | v :: vs => v.literal :: itemLiterals vs

def memberLiterals : List (String × Value) → List (List Char)
  | [] => []
  | (k, v) :: rest => (quoted k ++ ':' :: ' ' :: v.literal) :: memberLiterals rest

end

def literalText (v : Value) : String := .ofList v.literal

def shown : Value → String
  | .text s => s
  | .decimal d => d.text
  | .date d => d.text
  | .datetime t => .ofList (t.charsWith ' ')
  | v => v.literalText

def kindName : Value → String
  | .null => "NoneType"
  | .bool _ => "bool"
  | .int _ => "int"
  | .float _ => "float"
  | .decimal _ => "Decimal"
  | .date _ => "date"
  | .datetime _ => "datetime"
  | .text _ => "str"
  | .list _ => "list"
  | .object _ => "dict"

end Value

end RecordGraph
