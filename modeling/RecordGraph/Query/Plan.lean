import RecordGraph.Failure.Basic
import RecordGraph.Value.Conversion

/-!
# Plans and pages

A plan says which rows a storage is to read, in what shape and order, and how many of them. A page
is what comes back: the records, and how many rows there are in all.
-/

namespace RecordGraph

structure Plan where
  filter : Object := []
  /-- Relations that come with all their fields. -/
  includes : Option Object := none
  /-- The fields and relations to read, instead of all fields. -/
  selects : Option Object := none
  omits : Option Object := none
  order : Option Object := none
  take : Option Int := none
  skip : Option Int := none
deriving Repr, Inhabited

namespace Plan

private def member (key : String) (o : Option Object) : Object :=
  match o with
  | some o => [(key, .object o)]
  | none => []

private def count (key : String) (n : Option Int) : Object :=
  match n with
  | some n => [(key, .int n)]
  | none => []

/-- The plan as an object; parts that are not set are left out. -/
def toObject (orderKey : String) (p : Plan) : Object :=
  ("where", .object p.filter) :: member "include" p.includes ++ member "select" p.selects
    ++ member "omit" p.omits ++ member orderKey p.order ++ count "take" p.take ++ count "skip" p.skip

private def objectAt? (o : Object) (key : String) : Except Failure (Option Object) :=
  match Object.get o key with
  | .null => pure none
  | .object m => pure (some m)
  | _ => throw .illFormed

private def countAt? (o : Object) (key : String) : Except Failure (Option Int) :=
  match Object.get o key with
  | .null => pure none
  | v =>
    match v.toWhole? with
    | some n => pure (some n)
    | none => throw .illFormed

private def switchesAt? (o : Object) (key : String) : Except Failure (Option Object) := do
  match ← objectAt? o key with
  | none => return none
  | some members =>
    let switches ← members.mapM fun (name, v) =>
      match v.toSwitch? with
      | some b => pure (name, Value.bool b)
      | none => throw .illFormed
    return some switches

/-- The plan that an object describes. -/
def ofObject (o : Object) : Except Failure Plan := do
  let filter ← match Object.get? "where" o with
    | none => pure []
    | some (.object f) => pure f
    | some _ => throw .illFormed
  return {
    filter
    includes := ← objectAt? o "include"
    selects := ← objectAt? o "select"
    omits := ← switchesAt? o "omit"
    order := ← objectAt? o (if Object.contains o "orderBy" then "orderBy" else "order_by")
    take := ← countAt? o "take"
    skip := ← countAt? o "skip" }

end Plan

/-- Records of one request, with the size of the request and, if it was counted, the number of rows
that it chose from. -/
structure Page where
  records : List Value
  take : Int
  skip : Int
  total : Option Int := none
deriving Repr, Inhabited

namespace Page

/-- The page with its numbers, as callers are sent it. There is more if the rows so far do not reach
the total. -/
def envelope (p : Page) : Object :=
  let count : Int := p.records.length
  let counted : Object := match p.total with
    | some n => [("total", .int n), ("hasMore", .bool (p.skip + count < n))]
    | none => []
  [("data", .list p.records),
   ("meta", .object ([("count", .int count), ("limit", .int p.take), ("offset", .int p.skip)] ++ counted))]

end Page

end RecordGraph
