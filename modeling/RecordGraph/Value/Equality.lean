import RecordGraph.Value.Basic

/-!
# Equality of values

Numbers are equal if they are worth the same, whatever their kind; nothing equals a NaN. Lists are
compared item by item, objects member by member in any order.
-/

namespace RecordGraph

/-- What a number is worth. -/
inductive Worth where
  | exact (f : Fraction)
  | infinite (negative : Bool)
  | decimal (d : Decimal)
  | nothing

namespace Worth

def ofFloat (x : Binary64) : Worth :=
  match x.toFraction?, x with
  | some f, _ => .exact f
  | none, .infinite s => .infinite s
  | none, _ => .nothing

def ofDecimal (d : Decimal) : Worth :=
  match d.toFraction?, d with
  | some f, _ => .exact f
  | none, .infinite s => .infinite s
  | none, .nan .. => .nothing
  | none, d => .decimal d

def same : Worth → Worth → Bool
  | .exact f, .exact g => f.same g
  | .infinite s, .infinite t => s == t
  | .decimal d, .decimal e => d.same e
  | _, _ => false

end Worth

namespace Value

def worth? : Value → Option Worth
  | .bool b => some (.exact (.ofInt (if b then 1 else 0)))
  | .int n => some (.exact (.ofInt n))
  | .float x => some (.ofFloat x)
  | .decimal d => some (.ofDecimal d)
  | _ => none

mutual

/-- Equality by worth. -/
def same : Value → Value → Bool
  | .null, .null => true
  | .text s, .text t => s == t
  | .date d, .date e => d == e
  | .datetime t, .datetime u => t.same u
  | .list xs, .list ys => sameItems xs ys
  | .object xs, .object ys => xs.length == ys.length && sameMembers xs ys
  | a, b =>
    match a.worth?, b.worth? with
    | some x, some y => x.same y
    | _, _ => false

def sameItems : List Value → List Value → Bool
  | [], [] => true
  | x :: xs, y :: ys => same x y && sameItems xs ys
  | _, _ => false

/-- Whether each member is in the other object, with an equal value. -/
def sameMembers : List (String × Value) → List (String × Value) → Bool
  | [], _ => true
  | (k, v) :: rest, ys =>
    (match Object.get? k ys with
      | some w => same v w
      | none => false) && sameMembers rest ys

end

end Value

end RecordGraph
