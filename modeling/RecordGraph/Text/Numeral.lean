import RecordGraph.Text.Digit
import RecordGraph.Text.Split
import RecordGraph.Number.Binary64

/-!
# Numerals

Reading integers and decimal numbers. Digits of every script are taken by value, blanks may
surround a numeral, and a single underscore may stand between two digits.
-/

namespace RecordGraph

/-- The number that digits write, the most significant first. -/
def digitsValue (ds : List Nat) : Nat := ds.foldl (fun n d => 10 * n + d) 0

/-- The leading decimal digits, by value, and the rest. -/
def spanDigits : List Char → List Nat × List Char
  | [] => ([], [])
  | c :: cs =>
    match decimalValue? c with
    | some d => let (ds, rest) := spanDigits cs; (d :: ds, rest)
    | none => ([], c :: cs)

/-- A sign, if there is one. -/
def spanSign : List Char → Bool × List Char
  | '-' :: cs => (true, cs)
  | '+' :: cs => (false, cs)
  | cs => (false, cs)

/-- An unsigned decimal number `digits * 10 ^ scale`. -/
structure Numeral where
  digits : Nat
  scale : Int
deriving Repr, DecidableEq

/-- An exponent part. Without digits after the mark it is no exponent and nothing is read. -/
def spanExponent (cs : List Char) : Int × List Char :=
  match cs with
  | c :: rest =>
    if c = 'e' ∨ c = 'E' then
      let (negative, afterSign) := spanSign rest
      match spanDigits afterSign with
      | ([], _) => (0, cs)
      | (ds, after) =>
        let n : Int := digitsValue ds
        (if negative then -n else n, after)
    else (0, cs)
  | [] => (0, cs)

/-- The longest unsigned decimal number at the start: digits with an optional point, or a point and
digits, then an optional exponent. -/
def spanNumeral (cs : List Char) : Option (Numeral × List Char) :=
  let (whole, rest) := spanDigits cs
  let (fraction, rest) : List Nat × List Char :=
    match rest with
    | '.' :: after =>
      match spanDigits after with
      | ([], afterDigits) => if whole.isEmpty then ([], rest) else ([], afterDigits)
      | found => found
    | _ => ([], rest)
  if whole.isEmpty && fraction.isEmpty then none
  else
    let (e, rest) := spanExponent rest
    some (⟨digitsValue (whole ++ fraction), e - fraction.length⟩, rest)

/-- A blank that may stand beside a numeral: any but the information separators. -/
def isMargin (c : Char) : Bool := isBlank c && !(28 ≤ c.toNat && c.toNat ≤ 31)

private def dropMargins (cs : List Char) : List Char :=
  ((cs.dropWhile isMargin).reverse.dropWhile isMargin).reverse

/-- The text without its underscores, if each of them stands between two digits. -/
def dropUnderscores (cs : List Char) : Option (List Char) :=
  let rec go (previous : Bool) : List Char → Option (List Char)
    | [] => some []
    | ['_'] => none
    | '_' :: c :: cs => if previous && isDecimal c then (c :: ·) <$> go true cs else none
    | c :: cs => (c :: ·) <$> go (isDecimal c) cs
  go false cs

/-- The most digits that an integer numeral may have. -/
def integerDigitLimit : Nat := 4300

/-- An integer with an optional sign. -/
def readInteger? (cs : List Char) : Option Int := do
  let cs ← dropUnderscores (dropMargins cs)
  let (negative, cs) := spanSign cs
  match spanDigits cs with
  | ([], _) => none
  | (ds, []) =>
    if integerDigitLimit < ds.length then none
    else some (if negative then -(digitsValue ds : Int) else digitsValue ds)
  | _ => none

private def asciiWord (cs : List Char) : List Char :=
  cs.map fun c => if 65 ≤ c.toNat ∧ c.toNat ≤ 90 then Char.ofNat (c.toNat + 32) else c

/-- A decimal number, an infinity or a NaN, as the nearest double. -/
def readFloat? (cs : List Char) : Option Binary64 := do
  let cs ← dropUnderscores (dropMargins cs)
  let (negative, cs) := spanSign cs
  match spanNumeral cs with
  | some (n, []) => some (.ofDecimal negative n.digits n.scale)
  | some _ => none
  | none =>
    let word := asciiWord cs
    if word = "inf".toList ∨ word = "infinity".toList then some (.infinite negative)
    else if word = "nan".toList then some .nan
    else none

end RecordGraph
