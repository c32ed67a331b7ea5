import RecordGraph.Query.Plan

/-!
# Outcomes

What an operation ends with: a record or another value, a page of records, or the account of a
batch. Rows of a batch that fail are part of its outcome.
-/

namespace RecordGraph

/-- A row of a batch, or all the rows of one statement, with the reason why they failed. -/
structure FailedRow where
  record : Option Object := none
  records : Option (List Object) := none
  code : Option String := none
  message : String
deriving Repr, Inhabited

structure Batch where
  created : Int := 0
  updated : Int := 0
  failed : List FailedRow := []
  totalSuccess : Int := 0
  totalFailed : Int := 0
deriving Repr, Inhabited

namespace Batch

def finalize (b : Batch) : Batch :=
  { b with totalSuccess := b.created + b.updated, totalFailed := b.failed.length }

def fail (b : Batch) (row : FailedRow) : Batch := { b with failed := b.failed ++ [row] }

private def failedObject (row : FailedRow) : Object :=
  (match row.record with
    | some r => [("record", .object r)]
    | none => [])
  ++ (match row.records with
    | some rs => [("records", .list (rs.map .object))]
    | none => [])
  ++ (match row.code with
    | some c => [("code", .text c)]
    | none => [])
  ++ [("message", .text row.message)]

def toObject (b : Batch) : Object :=
  [("created", .int b.created), ("updated", .int b.updated),
   ("failed", .list (b.failed.map fun row => .object (failedObject row))),
   ("totalSuccess", .int b.totalSuccess), ("totalFailed", .int b.totalFailed)]

end Batch

inductive Outcome where
  | value (v : Value)
  | page (p : Page)
  | batch (b : Batch)
deriving Repr, Inhabited

namespace Outcome

def isPresent : Outcome → Bool
  | .value v => v.isPresent
  | _ => true

def describe : Outcome → Value
  | .value v => v
  | .batch b => .object b.toObject
  | .page p =>
    let total : Value := (p.total.map Value.int).getD .null
    .object [("data", .list p.records),
      ("meta", .object [("take", .int p.take), ("skip", .int p.skip), ("total", total)]),
      ("envelope", .object p.envelope)]

/-- This outcome, or another one if this counts as absent. -/
def orElse (a b : Outcome) : Outcome := if a.isPresent then a else b

end Outcome

end RecordGraph
