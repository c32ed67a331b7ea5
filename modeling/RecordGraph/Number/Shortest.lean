import RecordGraph.Number.Binary64

/-!
# Decimal digits of a double

`shortest` gives the fewest significant digits that read back as the same double and, among those,
the nearest ones. `rounded n` gives the nearest `n` digits, whether or not they read back.
-/

namespace RecordGraph

/-- Significant digits with the place of the first one: `digits` read as `d₁.d₂d₃… * 10 ^ place`. -/
structure Significand where
  digits : List Char
  place : Int
deriving Repr, DecidableEq

namespace Significand

/-- The decimal digits of a natural number, most significant first. -/
def digitsOf (n : Nat) : List Char := Nat.toDigits 10 n

private def dropTrailingZeros (ds : List Char) : List Char :=
  match (ds.reverse.dropWhile (· == '0')).reverse with
  | [] => ['0']
  | kept => kept

/-- The significand of `n * 10 ^ e`, without trailing zeros. -/
def ofScaled (n : Nat) (e : Int) : Significand :=
  let ds := digitsOf n
  ⟨dropTrailingZeros ds, e + ds.length - 1⟩

end Significand

namespace Binary64

/-- Whether `10 ^ k ≤ m * 2 ^ q`. -/
private def atLeastPowerOfTen (m : Nat) (q k : Int) : Bool :=
  match (Fraction.scaled 1 10 k).compare (Fraction.scaled m 2 q) with
  | .gt => false
  | _ => true

/-- The place of the first decimal digit of `m * 2 ^ q`, for positive `m`. -/
def decimalPlace (m : Nat) (q : Int) : Int :=
  let guess := ((m.log2 : Int) + q) * 1233 / 4096
  if !atLeastPowerOfTen m q guess then guess - 1
  else if atLeastPowerOfTen m q (guess + 1) then guess + 1
  else guess

/-- `m * 2 ^ q` in units of `10 ^ k`, as a quotient. -/
private def inUnits (m : Nat) (q k : Int) : Nat × Nat :=
  (m * Nat.pow 2 q.toNat * Nat.pow 10 (-k).toNat, Nat.pow 2 (-q).toNat * Nat.pow 10 k.toNat)

/-- The neighbour of `num / den` on the integers that satisfies `ok`, the nearer one if both do. -/
private def nearerHit (num den : Nat) (ok : Nat → Bool) : Option Nat :=
  let low := num / den
  let nearest := roundHalfEven num den
  if ok nearest then some nearest
  else
    let other := if nearest = low then low + 1 else low
    if ok other then some other else none

private def search (m : Nat) (q place : Int) : Nat → Nat → Significand
  | 0, n => .ofScaled (let u := inUnits m q (place - n); roundHalfEven u.1 u.2) (place - n)
  | fuel + 1, n =>
    let k := place - n
    let u := inUnits m q k
    match nearerHit u.1 u.2 (fun c => ofDecimal false c k == .finite false m q) with
    | some c => .ofScaled c k
    | none => search m q place fuel (n + 1)

/-- The fewest digits that read back as `m * 2 ^ q`; seventeen always suffice. -/
def shortest (m : Nat) (q : Int) : Significand :=
  if m = 0 then ⟨['0'], 0⟩ else search m q (decimalPlace m q) 16 0

/-- The `n` significant digits nearest to `m * 2 ^ q`, a tie going up, trailing zeros dropped. -/
def rounded (n m : Nat) (q : Int) : Significand :=
  if m = 0 then ⟨['0'], 0⟩
  else
    let k := decimalPlace m q - (n - 1 : Nat)
    let u := inUnits m q k
    .ofScaled (roundHalfUp u.1 u.2) k

end Binary64

end RecordGraph
