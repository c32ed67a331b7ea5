import RecordGraph.Relational.Where

/-!
# Sorting

Rows are sorted by columns of their own or of rows that they are linked to. A link joins the rows of
its target, so that a row with several linked rows comes several times, and one without any comes
with nulls. No table can be joined twice.
-/

namespace RecordGraph

/-- A row with the rows that are joined to it, by the path of links to them. -/
abbrev Joined := List (List String × Row)

namespace Sorting

structure Term where
  path : List String
  column : String
  descending : Bool
deriving Repr, DecidableEq, Inhabited

structure Join where
  source : List String
  link : Link
deriving Repr, DecidableEq, Inhabited

def Join.path (j : Join) : List String := j.source ++ [j.link.name]

end Sorting

/-- The joins and terms of an order. -/
structure Sorting where
  joins : List Sorting.Join := []
  terms : List Sorting.Term := []
deriving Repr, Inhabited

namespace Sorting

private def refusedName (name : String) : Failure :=
  .faultOf .queryValidation ("Cannot order by '" ++ name ++ "'") [("target", .text name)]

mutual

/-- Adds the order that members of an object ask for. -/
def addMembers (c : Catalog) (m : Model) (path : List String) (s : Sorting) :
    List (String × Value) → Except Failure Sorting
  | [] => pure s
  | (name, direction) :: rest => do addMembers c m path (← addMember c m path s name direction) rest

/-- Adds the order by one column, or by columns of the one row of a link. -/
def addMember (c : Catalog) (m : Model) (path : List String) (s : Sorting) (name : String) :
    Value → Except Failure Sorting
  | .object nested =>
    match (m.link? name).filter fun l => !l.isList with
    | none => throw (refusedName name)
    | some l => do
      addMembers c (← c.named l.target) (path ++ [name]) { s with joins := s.joins ++ [⟨path, l⟩] } nested
  | direction =>
    if (m.column? name).isNone then throw (refusedName name)
    else
      let descending := lowerText direction.shown == "desc".toList
      pure { s with terms := s.terms ++ [⟨path, name, descending⟩] }

end

def read (c : Catalog) (m : Model) (order : Object) : Except Failure Sorting :=
  addMembers c m [] {} order

/-- A table that is joined twice leaves the names of its columns ambiguous. -/
def check (s : Sorting) (m : Model) : Except Failure Unit :=
  let tables := m.name :: s.joins.map (·.link.target)
  if tables.eraseDups.length = tables.length then pure ()
  else throw (.engine { kind := .operational, message := "ambiguous column name" })

def join (db : Database) (rows : List Joined) (j : Join) : List Joined :=
  rows.flatMap fun r =>
    let found := match r.lookup j.source with
      | some row => db.linkedRows j.link row
      | none => []
    match found with
    | [] => [r]
    | found => found.map fun other => r ++ [(j.path, other)]

def cell (r : Joined) (t : Term) : Cell := ((r.lookup t.path).map (·.get t.column)).getD .null

def order (terms : List Term) (r s : Joined) : Ordering :=
  terms.foldl
    (fun o t =>
      let own := (cell r t).order (cell s t)
      o.then (if t.descending then own.swap else own))
    .eq

/-- The rows in order; rows that are equal in it stay as they are. -/
def sort (s : Sorting) (db : Database) (rows : List Row) : List Row :=
  let joined := s.joins.foldl (join db) (rows.map fun r => [([], r)])
  let sorted := joined.mergeSort fun r r' => order s.terms r r' != .gt
  sorted.filterMap fun r => r.lookup []

end Sorting

end RecordGraph
