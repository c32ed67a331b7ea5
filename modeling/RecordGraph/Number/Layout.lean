import RecordGraph.Number.Shortest

/-!
# The written form of a floating-point number

A layout says which numbers are written positionally and how the others are written with an
exponent. `Layout.plain` is the form of floats in texts and answers, `Layout.column` the form in
which a column of reals is matched as text.
-/

namespace RecordGraph

/-- Where positional notation ends and how a mantissa of one digit is written before an exponent. -/
structure Layout where
  /-- The least place of the first digit that is written positionally. -/
  from_ : Int
  /-- The greatest place of the first digit that is written positionally. -/
  upTo : Int
  /-- Whether a one-digit mantissa keeps `.0` before the exponent. -/
  pointBeforeExponent : Bool

namespace Layout

/-- Positional from `0.0001` to below `10 ^ 16`. -/
def plain : Layout := ⟨-4, 15, false⟩

/-- Positional from `0.0001` to below `10 ^ 15`; a point is always written. -/
def column : Layout := ⟨-4, 14, true⟩

/-- An exponent with its sign and at least two digits. -/
def exponentText (e : Int) : List Char :=
  let ds := Significand.digitsOf e.natAbs
  (if e < 0 then '-' else '+') :: (if ds.length < 2 then '0' :: ds else ds)

private def orZero : List Char → List Char
  | [] => ['0']
  | ds => ds

/-- The text of a significand under a layout. -/
def write (l : Layout) (s : Significand) : List Char :=
  if l.from_ ≤ s.place ∧ s.place ≤ l.upTo then
    if s.place < 0 then
      '0' :: '.' :: List.replicate (-s.place - 1).toNat '0' ++ s.digits
    else
      let whole := s.place.toNat + 1
      let ds := s.digits ++ List.replicate (whole - s.digits.length) '0'
      ds.take whole ++ '.' :: orZero (ds.drop whole)
  else
    let mantissa := match s.digits with
      | [d] => if l.pointBeforeExponent then [d, '.', '0'] else [d]
      | d :: rest => d :: '.' :: rest
      | [] => ['0']
    mantissa ++ 'e' :: exponentText s.place

end Layout

namespace Binary64

/-- The text that reads back as the number. -/
def text : Binary64 → String
  | .nan => "nan"
  | .infinite s => if s then "-inf" else "inf"
  | .finite s m q =>
    .ofList ((if s then ['-'] else []) ++ Layout.plain.write (shortest m q))

/-- The text of a stored real, of fifteen significant digits. -/
def columnText : Binary64 → String
  | .nan => "nan"
  | .infinite s => if s then "-Inf" else "Inf"
  | .finite s m q =>
    .ofList ((if s && m != 0 then ['-'] else []) ++ Layout.column.write (rounded 15 m q))

end Binary64

end RecordGraph
