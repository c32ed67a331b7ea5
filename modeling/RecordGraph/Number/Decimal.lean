import RecordGraph.Text.Numeral
import RecordGraph.Number.Shortest

/-!
# Decimal numbers

Decimals of unbounded precision that keep their scale, with infinities and NaNs, their written form
and how it is read.
-/

namespace RecordGraph

/-- A decimal; `finite s c e` is `± c * 10 ^ e`, and `2` differs from `2.0` in its scale. -/
inductive Decimal where
  | finite (negative : Bool) (coefficient : Nat) (exponent : Int)
  | infinite (negative : Bool)
  | nan (negative signaling : Bool) (payload : List Char)
deriving Repr, DecidableEq, Inhabited

namespace Decimal

def ofInt (n : Int) : Decimal := .finite (n < 0) n.natAbs 0

/-- The greatest exponent of the first digit. -/
def greatestPlace : Int := 999999999999999999

/-- The least exponent of a coefficient. -/
def leastExponent : Int := -1999999999999999997

def isZero : Decimal → Bool
  | .finite _ 0 _ => true
  | _ => false

/-- The exact value of a finite decimal whose scale is moderate; `none` stands for a magnitude that
equals no number of another kind. -/
def toFraction? : Decimal → Option Fraction
  | .finite _ 0 _ => some (.ofInt 0)
  | .finite s c e =>
    if e < -5000 ∨ 5000 < e then none
    else some (.scaled (if s then -(c : Int) else c) 10 e)
  | _ => none

/-- The coefficient without trailing zeros. -/
private def normalized (c : Nat) (e : Int) : Significand := .ofScaled c e

def same : Decimal → Decimal → Bool
  | .finite _ 0 _, .finite _ 0 _ => true
  | .finite s c e, .finite s' c' e' => s == s' && normalized c e == normalized c' e'
  | .infinite s, .infinite s' => s == s'
  | _, _ => false

def toBinary64 : Decimal → Binary64
  | .finite s c e => .ofDecimal s c e
  | .infinite s => .infinite s
  | .nan .. => .nan

private def sign (negative : Bool) : List Char := if negative then ['-'] else []

/-- The written form: positional while the exponent is not positive and the first digit is not
further than six places behind the point, with an exponent otherwise. -/
def chars : Decimal → List Char
  | .infinite s => sign s ++ "Infinity".toList
  | .nan s signaling payload => sign s ++ (if signaling then ['s'] else []) ++ "NaN".toList ++ payload
  | .finite s c e =>
    let ds := Significand.digitsOf c
    let left : Int := e + ds.length
    let point : Int := if e ≤ 0 ∧ -6 < left then left else 1
    let body :=
      if point ≤ 0 then '0' :: '.' :: List.replicate (-point).toNat '0' ++ ds
      else if (ds.length : Int) ≤ point then
        ds ++ List.replicate (point - ds.length).toNat '0'
      else ds.take point.toNat ++ '.' :: ds.drop point.toNat
    let scale :=
      if left = point then []
      else 'E' :: (if left < point then '-' else '+') :: Significand.digitsOf (left - point).natAbs
    sign s ++ body ++ scale

def text (d : Decimal) : String := .ofList d.chars

private def lowerWord (cs : List Char) : List Char :=
  cs.map fun c => if 65 ≤ c.toNat ∧ c.toNat ≤ 90 then Char.ofNat (c.toNat + 32) else c

private def readPayload? (cs : List Char) : Option (List Char) :=
  match spanDigits cs with
  | (ds, []) => some ((ds.dropWhile (· == 0)).map fun d => Char.ofNat (48 + d))
  | _ => none

/-- Reads a decimal; underscores count for nothing. -/
def read? (cs : List Char) : Option Decimal :=
  let cs := (trim cs).filter (· != '_')
  let (negative, cs) := spanSign cs
  match spanNumeral cs with
  | some (n, []) =>
    let place := n.scale + (Significand.digitsOf n.digits).length - 1
    if greatestPlace < place ∨ n.scale < leastExponent then none
    else some (.finite negative n.digits n.scale)
  | some _ => none
  | none =>
    let word := lowerWord cs
    if word = "inf".toList ∨ word = "infinity".toList then some (.infinite negative)
    else match dropStart? "nan".toList word with
      | some rest => (readPayload? rest).map (.nan negative false)
      | none => match dropStart? "snan".toList word with
        | some rest => (readPayload? rest).map (.nan negative true)
        | none => none

end Decimal

end RecordGraph
