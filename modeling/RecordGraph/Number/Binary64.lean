import RecordGraph.Number.Fraction

/-!
# Binary floating-point numbers of 64 bits

A double is kept as sign, mantissa and exponent, so that rounding, order and integrality are
statements about integers. Every finite value built here is canonical: its mantissa is below
`2 ^ 53`, its exponent is at least `-1074`, and the mantissa is at least `2 ^ 52` unless the
exponent is the least one.
-/

namespace RecordGraph

/-- A binary64 number; `finite s m q` is `± m * 2 ^ q`. -/
inductive Binary64 where
  | nan
  | infinite (negative : Bool)
  | finite (negative : Bool) (mantissa : Nat) (exponent : Int)
deriving Repr, DecidableEq, Inhabited

namespace Binary64

def leastExponent : Int := -1074

def greatestExponent : Int := 971

def zero (negative : Bool) : Binary64 := .finite negative 0 leastExponent

/-- The quotient `num / den` in units of `2 ^ q`, rounded to the nearest, ties to even. -/
def mantissaAt (num den : Nat) (q : Int) : Nat :=
  if 0 ≤ q then roundHalfEven num (den * Nat.pow 2 q.toNat)
  else roundHalfEven (num * Nat.pow 2 (-q).toNat) den

/-- Whether `num / den` is at least `2 ^ k`. -/
def reaches (num den : Nat) (k : Int) : Bool :=
  if 0 ≤ k then den * Nat.pow 2 k.toNat ≤ num else den ≤ num * Nat.pow 2 (-k).toNat

/-- The double nearest to `± num / den`, ties to even; too large a magnitude is infinite. -/
def ofQuotient (negative : Bool) (num den : Nat) : Binary64 :=
  if num = 0 then zero negative
  else
    let guess : Int := (num.log2 : Int) - (den.log2 : Int)
    let top := if reaches num den guess then guess else guess - 1
    let q := max (top - 52) leastExponent
    let m := mantissaAt num den q
    let (m, q) := if m = 0x20000000000000 then (0x10000000000000, q + 1) else (m, q)
    if greatestExponent < q then .infinite negative else .finite negative m q

def ofInt (n : Int) : Binary64 := ofQuotient (n < 0) n.natAbs 1

/-- The double nearest to `± digits * 10 ^ e`. Exponents far outside the range of doubles are
settled without computing the power. -/
def ofDecimal (negative : Bool) (digits : Nat) (e : Int) : Binary64 :=
  if digits = 0 then zero negative
  else if 400 < e then .infinite negative
  else if (digits.log2 : Int) + e < -400 then zero negative
  else if 0 ≤ e then ofQuotient negative (digits * Nat.pow 10 e.toNat) 1
  else ofQuotient negative digits (Nat.pow 10 (-e).toNat)

/-- The exact value of a finite number. -/
def toFraction? : Binary64 → Option Fraction
  | .finite negative m q => some (.scaled (if negative then -(m : Int) else m) 2 q)
  | _ => none

/-- The integer that a number is equal to, if there is one. -/
def toInt? : Binary64 → Option Int
  | .finite negative m q =>
    let magnitude : Option Nat :=
      if 0 ≤ q then some (m * Nat.pow 2 q.toNat)
      else if m % Nat.pow 2 (-q).toNat = 0 then some (m / Nat.pow 2 (-q).toNat) else none
    magnitude.map fun n => if negative then -(n : Int) else n
  | _ => none

def isZero : Binary64 → Bool
  | .finite _ 0 _ => true
  | _ => false

def isNegative : Binary64 → Bool
  | .infinite s => s
  | .finite s _ _ => s
  | .nan => false

end Binary64

end RecordGraph
