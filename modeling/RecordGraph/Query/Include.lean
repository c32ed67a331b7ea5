import RecordGraph.Access.Viewpoint

/-!
# Included relations

A request lists the relations that come with a record: all of them, or dotted paths. Each becomes an
entry of a tree: `true`, or an object with the fields to leave out, the filter of the rows and the
relations included further down. Relations that the schema does not have and targets that the user
may not read are passed over.
-/

namespace RecordGraph

/-- A request for relations: a list of paths and, by relation, further conditions on its rows. -/
structure IncludeRequest where
  query : Value := .null
  conditions : Object := []
deriving Repr, Inhabited

namespace IncludeRequest

def ofValue (v : Value) : Except Failure IncludeRequest :=
  match v with
  | .object o =>
    match Object.get o "rule" with
    | .object conditions => pure ⟨Object.get o "query", conditions⟩
    | rule => if rule.isPresent then throw .illFormed else pure ⟨Object.get o "query", []⟩
  | v => pure ⟨v, []⟩

/-- The text of the query, if one is given. -/
def text? (r : IncludeRequest) : Except Failure (Option String) :=
  match r.query with
  | .text s => pure (if s = "" then none else some s)
  | v => if v.isPresent then throw .illFormed else pure none

end IncludeRequest

namespace Include

def allRelations : String := "ALL"

/-- Adds an item to the group of a name. An empty item only makes sure that the group is there, and
no item is added twice. -/
def addToGroup (name item : String) : List (String × List String) → List (String × List String)
  | [] => [(name, if item = "" then [] else [item])]
  | (n, items) :: groups =>
    if n = name then
      (n, if item = "" ∨ items.contains item then items else items ++ [item]) :: groups
    else (n, items) :: addToGroup name item groups

/-- The paths by first segment, each group with the rests of its paths. -/
def groupPaths (query : String) : List (String × List String) :=
  (splitText ',' query).foldl
    (fun groups raw =>
      let path := trim raw.toList
      if path.isEmpty then groups
      else match cutAt '.' path with
        | (head, rest) => addToGroup (.ofList (trim head)) (.ofList (rest.getD [])) groups)
    []

variable (v : Viewpoint)

/-- The names of the relations of an entity that a query makes available. -/
def available (entity : String) (query : Option String) : Except Failure (List String) := do
  match query with
  | none => return []
  | some query =>
    let e ← v.schema.entity entity
    if trimText query = allRelations then return e.relations.map (·.name)
    else return ((groupPaths query).map Prod.fst).filter fun name => (e.relation? name).isSome

/-- The entry of a relation that is followed from a parent entity, with the tree of what is included
further down; none if the user may not read its target. -/
def entry (parent : String) (r : Relation) (nested : Object) : Except Failure (Option Value) := do
  let decision ← v.decide .read r.target
  if decision.denied then return none
  let omission ← v.omission r.target
  let filter : Value :=
    if r.isList ∧ !decision.filter.isEmpty then
      (((Guard.withoutParent parent (.object decision.filter)).bind Guard.clean).getD .null)
    else .null
  let parts : Object :=
    (if omission.isEmpty then [] else [("omit", .object omission)])
      ++ (if filter.isPresent then [("where", filter)] else [])
      ++ (if nested.isEmpty then [] else [("include", .object nested)])
  return some (if parts.isEmpty then .bool true else .object parts)

/-- The entries of some groups of paths. `below` resolves what the paths of a group go on to. -/
def level (below : Relation → List String → Except Failure Object) (entity : String)
    (groups : List (String × List String)) : Except Failure Object := do
  let e ← v.schema.entity entity
  groups.foldlM
    (fun tree (name, rests) => do
      match e.relation? name with
      | none => return tree
      | some r =>
        let nested ← if rests.isEmpty then pure [] else below r rests
        match ← entry v entity r nested with
        | some x => return Object.set name x tree
        | none => return tree)
    []

/-- The tree of some groups of paths, going at most `depth` relations further down than the first. -/
def paths : Nat → String → List (String × List String) → Except Failure Object
  | 0 => level v fun _ _ => pure []
  | depth + 1 => level v fun r rests => paths depth r.target (groupPaths (joinTexts "," rests))

/-- Every relation of an entity, with nothing further down. -/
def everyRelation (entity : String) : Except Failure Object := do
  let e ← v.schema.entity entity
  e.relations.foldlM
    (fun tree r => do
      match ← entry v entity r [] with
      | some x => return Object.set r.name x tree
      | none => return tree)
    []

/-- Adds conditions on the rows of an entry, which its own filter guards. -/
def restrictEntry (condition : Value) (x : Value) : Except Failure Value := do
  let .object condition := condition | throw .illFormed
  let parts := match x with
    | .object parts => parts
    | _ => []
  let guarded ← match Object.get parts "where" with
    | .object own => pure (Guard.merge condition own)
    | own => if own.isPresent then throw .illFormed else pure condition
  return .object (Object.set "where" (.object guarded) parts)

/-- The tree of a request for relations of an entity. -/
def resolve (maxDepth : Int) (entity : String) (request : IncludeRequest) : Except Failure Object := do
  match ← request.text? with
  | none => return []
  | some query =>
    if trimText query = "" then return []
    let tree ←
      if trimText query = allRelations then everyRelation v entity
      else paths v (maxDepth - 1).toNat entity (groupPaths query)
    request.conditions.foldlM
      (fun tree (name, condition) => do
        match Object.get? name tree with
        | some x =>
          if condition.isPresent then return Object.set name (← restrictEntry condition x) tree
          else return tree
        | none => return tree)
      tree

end Include

end RecordGraph
