import RecordGraph.Relational.Transaction

/-!
# Duplicates

A given row is a duplicate if the table or an earlier given row has its primary key or its value of a
unique column. Values are compared by the texts of what the columns take; nulls coincide with nothing.
-/

namespace RecordGraph

namespace Catalog

/-- The columns by each of which a row is known: the key, and each unique column. -/
def identities (m : Model) : List (List Column) :=
  m.keyColumns :: (m.columns.filter (·.unique)).map fun column => [column]

/-- The given values of some columns, if none of them is missing. -/
def givenValues? (columns : List Column) (row : Object) : Option (List (Column × Value)) :=
  columns.mapM fun column =>
    match Object.get row column.name with
    | .null => none
    | v => some (column, v)

/-- The texts of the rows of the database that some given rows coincide with. -/
def takenTexts (m : Model) (columns : List Column) (rows : List Object) :
    Query (List (List String)) := do
  let given := rows.filterMap (givenValues? columns)
  if given.isEmpty then return []
  let conditions ← given.mapM fun vs => do
    return Condition.all (← vs.mapM fun (column, v) => column.equalTo v)
  let condition := Condition.any conditions
  condition.bind
  let found := (← get).select m condition
  return found.map fun r => columns.map fun column => (column.kind.read (r.get column.name)).shown

/-- The rows of a batch so far. -/
structure Kept where
  seen : List (List (List String))
  rows : List Object := []

/-- Notes a row under each of its identities until one of them was seen before. -/
def note (row : Object) : List (List Column) → List (List (List String)) →
    Except Failure (Bool × List (List (List String)))
  | columns :: more, texts :: rest =>
    match givenValues? columns row with
    | none => do
      let (repeated, rest) ← note row more rest
      return (repeated, texts :: rest)
    | some vs => do
      let own ← vs.mapM fun (column, v) => Value.shown <$> column.coerce v
      if texts.contains own then return (true, texts :: rest)
      let (repeated, rest) ← note row more rest
      return (repeated, (own :: texts) :: rest)
  | _, seen => pure (false, seen)

/-- The rows that neither the database nor an earlier row of the batch has already. -/
def withoutDuplicates (m : Model) (rows : List Object) : Query (List Object) := do
  let groups := identities m
  let seen ← groups.mapM fun columns => takenTexts m columns rows
  let kept ← rows.foldlM
    (fun (k : Kept) row => do
      let (repeated, seen) ← Act.ofExcept (note row groups k.seen)
      return { seen, rows := if repeated then k.rows else k.rows ++ [row] })
    { seen }
  return kept.rows

end Catalog

end RecordGraph
