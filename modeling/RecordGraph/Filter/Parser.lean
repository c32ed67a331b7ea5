import RecordGraph.Filter.Clause
import RecordGraph.Filter.Operand
import RecordGraph.Schema.Basic
import RecordGraph.Value.Display

/-!
# Reading filters

A clause `path=operand` constrains one field. The path leads through relations of the schema: a list
relation is entered under `some`, a relation to one record directly. All clauses are collected in
one tree, and a later clause on a field replaces an earlier one, except that lists of texts with per
cent signs and negated ranges are added to those that are there.
-/

namespace RecordGraph

namespace Filter

def nullWord : List Char := "#NULL".toList

/-- The tree with one more item under a logical key. -/
def addTo (key : String) (more : List Value) (tree : Object) : Object :=
  Object.set key (.list ((Object.get tree key).asItems ++ more)) tree

/-- One text condition on a field for each item of a list. -/
def textAlternatives (field : String) (items : List Value) : List Value :=
  items.map fun item => .object [(field, Operand.text item.shown.toList)]

/-- Excludes a range: of numbers if both ends are plain numbers, of moments otherwise. -/
def excludeRange (field : String) (operands : List Char) (tree : Object) : Except Failure Object := do
  let (start, stop) ← Operand.range operands
  let ends : Option (Value × Value) :=
    if Operand.isPlainNumber start && Operand.isPlainNumber stop then do
      let low ← Operand.leadingNumber? start
      let high ← Operand.leadingNumber? stop
      some (Operand.ofNumber low, Operand.ofNumber high)
    else do
      let low ← Operand.moment? start
      let high ← Operand.moment? stop
      some (.datetime low, .datetime high)
  match ends with
  | some (low, high) =>
    let part (operator : String) (v : Value) : Value := .object [(field, .object [(operator, v)])]
    return addTo "NOT" [.object [("AND", .list [part "gte" low, part "lte" high])]] tree
  | none =>
    throw (.validation "invalid_date_range"
      (some [("start", .text (.ofList start)), ("end", .text (.ofList stop))]))

/-- Constrains a field by an operand that is not negated. -/
def applyOperand (field : String) (operand : List Char) (tree : Object) : Except Failure Object := do
  match ← Operand.datetime? operand with
  | some condition => return Object.set field (.object condition) tree
  | none =>
    match ← Operand.numeric? operand with
    | some condition => return Object.set field (.object condition) tree
    | none =>
      if Operand.isBracketed operand then
        let items := Operand.items operand
        if Operand.hasWildcard items then return addTo "OR" (textAlternatives field items) tree
        else return Object.set field (.object [("in", .list items)]) tree
      else return Object.set field (Operand.text operand) tree

/-- Constrains a field by the negation of an operand. A required scalar is never null, so that
denying null says nothing about it. -/
def applyNegated (field : Field) (operand : List Char) (tree : Object) : Except Failure Object := do
  let name := field.name
  let denied (condition : Value) : Object := Object.set name (.object [("not", condition)]) tree
  if operand = nullWord then
    if field.isRelation then return Object.set name (.object [("isNot", .null)]) tree
    else if field.required then return tree
    else return denied (.object [("equals", .null)])
  else if Operand.isBracketed operand then
    let items := Operand.items operand
    if Operand.hasWildcard items then return addTo "NOT" (textAlternatives name items) tree
    else return Object.set name (.object [("notIn", .list items)]) tree
  else match Operand.after? "between:" operand with
  | some operands => excludeRange name operands tree
  | none =>
    match ← Operand.datetime? operand with
    | some condition => return denied (.object condition)
    | none =>
      match ← Operand.numeric? operand with
      | some condition => return denied (.object condition)
      | none => return denied (Operand.text operand)

/-- Constrains a field of an entity by an operand. -/
def applyClause (s : Schema) (entity name : String) (operand : List Char) (tree : Object) :
    Except Failure Object := do
  match (← s.entity entity).field? name with
  | none =>
    throw (.validation "invalid_filter_field" (some [("field", .text name), ("entity", .text entity)]))
  | some field =>
    if operand = nullWord then
      if field.isRelation then return Object.set name (.object [("is", .null)]) tree
      else if field.required then
        throw (.validation "field_not_nullable" (some [("field", .text name)]))
      else return Object.set name (.object [("equals", .null)]) tree
    else match Operand.after? "not:" operand with
    | some denied => applyNegated field denied tree
    | none => if operand.isEmpty then return tree else applyOperand name operand tree

/-- Follows the rest of a path from a truth value on. Nothing is found in it, and nothing can be set. -/
def intoTruth (s : Schema) (root : String) (change : String → Object → Except Failure Object) :
    List String → String → Except Failure Unit
  | [], entity => do
    if (← change entity []).isEmpty then pure () else throw .illFormed
  | name :: _, entity => do
    match ← s.relation? entity name with
    | none =>
      throw (.validation "relation_not_exist"
        (some [("relation", .text name), ("entity", .text root)]))
    | some _ => throw .illFormed

/-- Changes the tree at the end of a path of relations, which is built where it is missing. `change`
is given the entity that the path leads to. -/
def alongPath (s : Schema) (root : String) (change : String → Object → Except Failure Object) :
    List String → String → Object → Except Failure Object
  | [], entity, tree => change entity tree
  | name :: path, entity, tree => do
    match ← s.relation? entity name with
    | none =>
      throw (.validation "relation_not_exist"
        (some [("relation", .text name), ("entity", .text root)]))
    | some r =>
      match Object.get tree r.name with
      | .null =>
        let inner := .object (← alongPath s root change path r.target [])
        return Object.set r.name (if r.isList then .object [("some", inner)] else inner) tree
      | .object existing =>
        match Object.get? "some" existing with
        | some (.object inner) =>
          let inner ← alongPath s root change path r.target inner
          return Object.set r.name (.object (Object.set "some" (.object inner) existing)) tree
        | some _ =>
          intoTruth s root change path r.target
          return tree
        | none =>
          return Object.set r.name (.object (← alongPath s root change path r.target existing)) tree
      | _ => throw .illFormed

/-- Adds one clause to the tree. A part without an equals sign is no clause. -/
def addClause (s : Schema) (root : String) (tree : Object) (clause : List Char) :
    Except Failure Object := do
  match cutAt '=' clause with
  | (_, none) => return tree
  | (key, some operand) =>
    let segments := (splitAt '.' key).map fun part => String.ofList (trim part)
    let path := segments.dropLast
    let name := segments.getLastD ""
    if path.isEmpty ∧ !(← s.entity root).hasField name then
      throw (.validation "invalid_filter_field" (some [("field", .text name)]))
    alongPath s root (fun entity tree => applyClause s entity name (trim operand) tree) path root tree

def parse (s : Schema) (entity : String) (text : List Char) : Except Failure Object :=
  if (trim text).isEmpty then pure []
  else (splitClauses text).foldlM (addClause s entity) []

end Filter

end RecordGraph
