import RecordGraph.Value.Basic
import RecordGraph.Text.Numeral
import RecordGraph.Number.Layout

/-!
# Values written as JSON

Reads and writes JSON texts. Members keep their order and the last of two equal keys wins in the place of
the first. The words `NaN`, `Infinity` and `-Infinity` count as numbers, an integer may have no more
than `integerDigitLimit` digits, and nothing but the four JSON blanks may surround a value. What is written is ASCII: other characters are escaped in
units of sixteen bits.
-/

namespace RecordGraph

namespace Json

def isJsonBlank (c : Char) : Bool := c == ' ' || c == '\t' || c == '\n' || c == '\r'

def skipBlanks (cs : List Char) : List Char := cs.dropWhile isJsonBlank

def hexDigit? (c : Char) : Option Nat :=
  let n := c.toNat
  if 48 ≤ n ∧ n ≤ 57 then some (n - 48)
  else if 97 ≤ n ∧ n ≤ 102 then some (n - 87)
  else if 65 ≤ n ∧ n ≤ 70 then some (n - 55)
  else none

def hexUnit? : List Char → Option (Nat × List Char)
  | a :: b :: c :: d :: rest => do
    let w ← hexDigit? a
    let x ← hexDigit? b
    let y ← hexDigit? c
    let z ← hexDigit? d
    some (((w * 16 + x) * 16 + y) * 16 + z, rest)
  | _ => none

/-- The character of a unit and, for a high surrogate, of the low one that follows it. -/
def unitChar (unit : Nat) (rest : List Char) : Char × List Char :=
  if 0xd800 ≤ unit ∧ unit ≤ 0xdbff then
    match rest with
    | '\\' :: 'u' :: more =>
      match hexUnit? more with
      | some (low, after) =>
        if 0xdc00 ≤ low ∧ low ≤ 0xdfff then
          (Char.ofNat (0x10000 + (unit - 0xd800) * 0x400 + (low - 0xdc00)), after)
        else (Char.ofNat 0xfffd, rest)
      | none => (Char.ofNat 0xfffd, rest)
    | _ => (Char.ofNat 0xfffd, rest)
  else if 0xdc00 ≤ unit ∧ unit ≤ 0xdfff then (Char.ofNat 0xfffd, rest)
  else (Char.ofNat unit, rest)

def plainEscape? : Char → Option Char
  | '"' => some '"'
  | '\\' => some '\\'
  | '/' => some '/'
  | 'b' => some (Char.ofNat 8)
  | 'f' => some (Char.ofNat 12)
  | 'n' => some '\n'
  | 'r' => some '\r'
  | 't' => some '\t'
  | _ => none

/-- The characters up to the closing quote. -/
def textBody : Nat → List Char → Option (List Char × List Char)
  | 0, _ => none
  | _ + 1, [] => none
  | fuel + 1, c :: cs =>
    if c = '"' then some ([], cs)
    else if c = '\\' then
      match cs with
      | [] => none
      | 'u' :: rest => do
        let (unit, rest) ← hexUnit? rest
        let (ch, rest) := unitChar unit rest
        let (body, rest) ← textBody fuel rest
        some (ch :: body, rest)
      | e :: rest => do
        let ch ← plainEscape? e
        let (body, rest) ← textBody fuel rest
        some (ch :: body, rest)
    else if c.toNat < 32 then none
    else do
      let (body, rest) ← textBody fuel cs
      some (c :: body, rest)

def asciiDigits (cs : List Char) : List Char × List Char := cs.span Char.isDigit

/-- A fraction part, with at least one digit. -/
def fractionPart (cs : List Char) : List Char × List Char :=
  match cs with
  | '.' :: rest =>
    match asciiDigits rest with
    | ([], _) => ([], cs)
    | found => found
  | _ => ([], cs)

/-- An exponent part, with at least one digit. -/
def exponentPart (cs : List Char) : Option Int × List Char :=
  match cs with
  | c :: rest =>
    if c = 'e' ∨ c = 'E' then
      let (negative, rest) := spanSign rest
      match asciiDigits rest with
      | ([], _) => (none, cs)
      | (ds, after) =>
        let n : Int := digitsValue (ds.map fun d => d.toNat - 48)
        (some (if negative then -n else n), after)
    else (none, cs)
  | [] => (none, cs)

def number? (cs : List Char) : Option (Value × List Char) := do
  let (negative, unsigned) := match cs with
    | '-' :: rest => (true, rest)
    | _ => (false, cs)
  let (whole, rest) ← match unsigned with
    | '0' :: rest => some (['0'], rest)
    | _ => match asciiDigits unsigned with
      | ([], _) => none
      | found => some found
  let (fraction, rest) := fractionPart rest
  let (exponent, rest) := exponentPart rest
  let value (ds : List Char) : Nat := digitsValue (ds.map fun d => d.toNat - 48)
  match fraction, exponent with
  | [], none =>
    if integerDigitLimit < whole.length then none
    else some (.int (if negative then -(value whole : Int) else value whole), rest)
  | _, _ =>
    let scale := exponent.getD 0 - fraction.length
    some (.float (.ofDecimal negative (value (whole ++ fraction)) scale), rest)

def words : List (String × Value) :=
  [("null", .null), ("true", .bool true), ("false", .bool false), ("NaN", .float .nan),
   ("Infinity", .float (.infinite false)), ("-Infinity", .float (.infinite true))]

def word? (cs : List Char) : Option (Value × List Char) :=
  words.findSome? fun (w, v) => (dropStart? w.toList cs).map (v, ·)

mutual

/-- One value, with no blank before it. -/
def value? : Nat → List Char → Option (Value × List Char)
  | 0, _ => none
  | fuel + 1, cs =>
    match cs with
    | '"' :: rest => do
      let (body, rest) ← textBody (rest.length + 1) rest
      some (.text (.ofList body), rest)
    | '[' :: rest =>
      match skipBlanks rest with
      | ']' :: rest => some (.list [], rest)
      | rest => do
        let (items, rest) ← items? fuel rest
        some (.list items, rest)
    | '\x7b' :: rest =>
      match skipBlanks rest with
      | '\x7d' :: rest => some (.object [], rest)
      | rest => do
        let (members, rest) ← members? fuel rest
        some (.object (Object.ofMembers members), rest)
    | _ => (word? cs).or (number? cs)

/-- The items of a list that has at least one. -/
def items? : Nat → List Char → Option (List Value × List Char)
  | 0, _ => none
  | fuel + 1, cs => do
    let (v, rest) ← value? fuel cs
    match skipBlanks rest with
    | ']' :: rest => some ([v], rest)
    | ',' :: rest => do
      let (vs, rest) ← items? fuel (skipBlanks rest)
      some (v :: vs, rest)
    | _ => none

/-- The members of an object that has at least one. -/
def members? : Nat → List Char → Option (List (String × Value) × List Char)
  | 0, _ => none
  | fuel + 1, cs => do
    let '"' :: rest := cs | none
    let (key, rest) ← textBody (rest.length + 1) rest
    let ':' :: rest := skipBlanks rest | none
    let (v, rest) ← value? fuel (skipBlanks rest)
    match skipBlanks rest with
    | '\x7d' :: rest => some ([(.ofList key, v)], rest)
    | ',' :: rest => do
      let (more, rest) ← members? fuel (skipBlanks rest)
      some ((.ofList key, v) :: more, rest)
    | _ => none

end

end Json

/-- The value that a JSON text writes. -/
def Value.ofJson? (cs : List Char) : Option Value := do
  let start := Json.skipBlanks cs
  let (v, rest) ← Json.value? (start.length + 1) start
  if (Json.skipBlanks rest).isEmpty then some v else none

/-! ## Writing -/

namespace Json

private def hexUnit (n : Nat) : List Char :=
  let ds := Nat.toDigits 16 n
  '\\' :: 'u' :: List.replicate (4 - ds.length) '0' ++ ds

private def shortEscapes : List (Char × Char) :=
  [('"', '"'), ('\\', '\\'), ('\n', 'n'), ('\r', 'r'), ('\t', 't'), (Char.ofNat 8, 'b'),
   (Char.ofNat 12, 'f')]

def escaped (c : Char) : List Char :=
  let n := c.toNat
  match shortEscapes.lookup c with
  | some e => ['\\', e]
  | none =>
    if 32 ≤ n ∧ n ≤ 126 then [c]
    else if n < 0x10000 then hexUnit n
    else hexUnit (0xd800 + (n - 0x10000) / 0x400) ++ hexUnit (0xdc00 + (n - 0x10000) % 0x400)

/-- A text in quotes. -/
def quotedText (s : String) : List Char := '"' :: s.toList.flatMap escaped ++ ['"']

mutual

/-- The JSON text of a value; dates and decimals are written as texts. -/
def write : Value → List Char
  | .null => "null".toList
  | .bool b => if b then "true".toList else "false".toList
  | .int n => (toString n).toList
  | .float x => x.text.toList
  | .decimal d => quotedText d.text
  | .date d => quotedText d.text
  | .datetime t => quotedText t.text
  | .text s => quotedText s
  | .list items => '[' :: joinWith [',', ' '] (writeItems items) ++ [']']
  | .object members => '\x7b' :: joinWith [',', ' '] (writeMembers members) ++ ['\x7d']

def writeItems : List Value → List (List Char)
  | [] => []
  | v :: vs => write v :: writeItems vs

def writeMembers : List (String × Value) → List (List Char)
  | [] => []
  | (k, v) :: rest => (quotedText k ++ ':' :: ' ' :: write v) :: writeMembers rest

end

mutual

/-- The value with the members of every object sorted by key. -/
def sortKeys : Value → Value
  | .list items => .list (sortKeysItems items)
  | .object members => .object ((sortKeysMembers members).mergeSort fun a b => a.1 ≤ b.1)
  | v => v

def sortKeysItems : List Value → List Value
  | [] => []
  | v :: vs => sortKeys v :: sortKeysItems vs

def sortKeysMembers : List (String × Value) → List (String × Value)
  | [] => []
  | (k, v) :: rest => (k, sortKeys v) :: sortKeysMembers rest

end

end Json

def Value.toJson (v : Value) : String := .ofList (Json.write v)

/-- The items in the order of their JSON texts. -/
def Value.sortItems (items : List Value) : List Value :=
  let keyed := items.map fun v => ((Json.sortKeys v).toJson, v)
  (keyed.mergeSort fun a b => a.1 ≤ b.1).map Prod.snd

namespace Value

mutual

/-- The value with every list in it sorted by the JSON texts of the items. -/
def sortLists : Value → Value
  | .list vs => .list (sortItems (sortListsIn vs))
  | .object o => .object (sortListsOf o)
  | v => v

def sortListsIn : List Value → List Value
  | [] => []
  | v :: vs => sortLists v :: sortListsIn vs

def sortListsOf : List (String × Value) → List (String × Value)
  | [] => []
  | (k, v) :: rest => (k, sortLists v) :: sortListsOf rest

end

end Value

end RecordGraph
