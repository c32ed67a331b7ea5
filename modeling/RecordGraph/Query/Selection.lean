import RecordGraph.Query.Include
import RecordGraph.Value.Display

/-!
# Selections

A request without a field list reads all fields and the included relations. One with a field list
reads what it names and nothing else: scalars by name, fields of included relations by dotted path.
Every relation on a path is checked like an included one.
-/

namespace RecordGraph

namespace Selection

/-- The plain names of a field list, and the rests of the dotted ones by first segment. -/
def parseFields (fields : String) : List String × List (String × List String) :=
  (splitText ',' fields).foldl
    (fun (scalars, relations) raw =>
      let part := trim raw.toList
      if part.isEmpty then (scalars, relations)
      else match cutAt '.' part with
        | (_, none) =>
          let name := String.ofList part
          (if scalars.contains name then scalars else scalars ++ [name], relations)
        | (head, some rest) => (scalars, addRest (.ofList head) (.ofList rest) relations))
    ([], [])
where
  addRest (name rest : String) : List (String × List String) → List (String × List String)
    | [] => [(name, [rest])]
    | (n, rests) :: groups =>
      if n = name then (n, if rests.contains rest then rests else rests ++ [rest]) :: groups
      else (n, rests) :: addRest name rest groups

variable (v : Viewpoint)

/-- The named scalars that are not omitted. -/
def scalarTree (omission : Object) (names : List String) : Object :=
  Object.ofMembers ((names.filter fun n => !Object.contains omission n).map fun n => (n, .bool true))

/-- The filter of an entry, if it has one. -/
def entryFilter (content : Value) : Object :=
  match content with
  | .object parts =>
    let filter := Object.get parts "where"
    if filter.isPresent then [("where", filter)] else []
  | _ => []

/-- The entry of a relation of which only some fields are read. Each dot of a path uses up one step
of the fuel. -/
def relationSelect : Nat → Relation → List String → Value → Except Failure Value
  | fuel, r, rests, content => do
    let (scalars, nested) := parseFields (joinTexts "," rests)
    let omission ← v.omission r.target
    let e ← v.schema.entity r.target
    let tree ← nested.foldlM
      (fun tree (name, paths) => do
        match e.relation? name with
        | none =>
          throw (.validation "invalid_select_relation"
            (some [("relation", .text (r.target ++ "." ++ name))]))
        | some child =>
          match ← Include.entry v r.target child [] with
          | none => return tree
          | some childContent =>
            match fuel with
            | 0 => return tree
            | fuel + 1 => return Object.set name (← relationSelect fuel child paths childContent) tree)
      (scalarTree omission scalars)
    return .object (("select", .object tree) :: entryFilter content)

/-- A field list as text; anything absent is an empty list. -/
def fieldText (fields : Value) : Except Failure String :=
  match fields with
  | .text s => pure s
  | f => if f.isPresent then throw .illFormed else pure ""

/-- The selecting part of a plan: what to include and to omit. -/
structure Shape where
  includes : Option Object := none
  selects : Option Object := none
  omits : Option Object := none
deriving Repr, Inhabited

private def unlessEmpty (o : Object) : Option Object := if o.isEmpty then none else some o

/-- The shape of a record of an entity for a field list and a request for relations. -/
def compile (maxDepth : Int) (entity : String) (fields : Value) (includes : Value) :
    Except Failure Shape := do
  let fields ← fieldText fields
  if trimText fields = "" then
    let tree ← Include.resolve v maxDepth entity (← IncludeRequest.ofValue includes)
    return { includes := unlessEmpty tree, omits := unlessEmpty (← v.omission entity) }
  let (scalars, relations) := parseFields fields
  let query ← (← IncludeRequest.ofValue includes).text?
  let available ← Include.available v entity query
  for (name, _) in relations do
    if !available.contains name then
      throw (.validation "relation_not_included"
        (some [("relation", .text name), ("hint", .text ("Add '" ++ name ++ "' to the include parameter"))]))
  let omission ← v.omission entity
  let e ← v.schema.entity entity
  let tree ← available.foldlM
    (fun tree name => do
      match e.relation? name with
      | none => return tree
      | some r =>
        match ← Include.entry v entity r [] with
        | none => return tree
        | some content =>
          match relations.lookup name with
          | some rests =>
            let fuel := (joinTexts "," rests).length
            return Object.set name (← relationSelect v fuel r rests content) tree
          | none => return Object.set name content tree)
    (scalarTree omission scalars)
  return { selects := some tree }

end Selection

/-! ## Paging and order -/

namespace Paging

/-- The number of records to read: a positive integer, cut down to the limit. -/
def take (limit : Int) (wanted : Value) : Except Failure Int :=
  match wanted with
  | .int n =>
    if 0 < n then pure (min n limit)
    else throw (.validation "invalid_limit" (some [("limit", wanted)]))
  | _ => throw (.validation "invalid_limit" (some [("limit", wanted)]))

/-- The number of rows to pass over; what is no natural number counts as zero. -/
def skip : Value → Int
  | .int n => max n 0
  | _ => 0

/-- The order by a dotted path, as a tree. -/
def sort (field direction : Value) : Except Failure Object :=
  match field with
  | .text path =>
    match direction with
    | .text d =>
      if d = "asc" ∨ d = "desc" then
        let segments := (splitText '.' path).map trimText
        let last : Object := [(segments.getLastD "", direction)]
        pure (segments.dropLast.foldr (fun segment tree => [(segment, .object tree)]) last)
      else throw (.validation "sortorder_invalid" (some [("value", direction)]))
    | _ => throw (.validation "sortorder_invalid" (some [("value", direction)]))
  | _ => throw (.validation "sortby_must_be_string" (some [("type", .text field.kindName)]))

end Paging

end RecordGraph
