/-!
# Fractions

A numerator over a natural denominator, compared by cross multiplication. Numbers of every
representation (integers, binary and decimal floating point) are compared through it, so that no
comparison rounds.
-/

namespace RecordGraph

/-- An exact number `num / den`; `den` is never zero in the values built below. -/
structure Fraction where
  num : Int
  den : Nat
deriving Repr, DecidableEq

namespace Fraction

def ofInt (n : Int) : Fraction := ⟨n, 1⟩

/-- `m * base ^ e`, with negative powers in the denominator. -/
def scaled (m : Int) (base : Nat) (e : Int) : Fraction :=
  if 0 ≤ e then ⟨m * Nat.pow base e.toNat, 1⟩ else ⟨m, Nat.pow base (-e).toNat⟩

def compare (a b : Fraction) : Ordering :=
  Ord.compare (a.num * (b.den : Int)) (b.num * (a.den : Int))

def same (a b : Fraction) : Bool := a.num * (b.den : Int) == b.num * (a.den : Int)

end Fraction

/-- `num / den` rounded to the nearest integer, a tie going to the even one. -/
def roundHalfEven (num den : Nat) : Nat :=
  let whole := num / den
  let twice := 2 * (num % den)
  if twice < den then whole
  else if den < twice then whole + 1
  else if whole % 2 = 0 then whole else whole + 1

/-- `num / den` rounded to the nearest integer, a tie going up. -/
def roundHalfUp (num den : Nat) : Nat := (2 * num + den) / (2 * den)

end RecordGraph
