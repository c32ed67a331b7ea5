import RecordGraph.Failure.Disclosure
import RecordGraph.Filter.Parser
import RecordGraph.Hook.Registry
import RecordGraph.Mutation.Create
import RecordGraph.Mutation.Update
import RecordGraph.Operation.Key
import RecordGraph.Operation.Storage
import RecordGraph.Query.Selection
import RecordGraph.Settings

/-!
# The engine

A schema, a storage, rules, hooks and settings make up an engine, which runs operations. Here are
the plans of its reads and the border to the storage, where faults become request errors.
-/

namespace RecordGraph

structure Engine (σ : Type) where
  schema : Schema
  storage : Storage σ
  rules : Rules := {}
  hooks : Registry σ := {}
  settings : Settings := {}

namespace Engine

variable {σ : Type} (e : Engine σ)

def viewpoint (user : User) : Viewpoint := ⟨e.schema, e.rules, user⟩

def writer (user : User) : Writer :=
  ⟨e.viewpoint user, e.settings.auditFields, e.settings.maxNestingDepth⟩

def disclosure : Disclosure := ⟨e.settings.isProduction⟩

/-! ## Plans -/

/-- The filter of a read, joined to what the user may read. Anything but a text or a tree filters
nothing. -/
def readFilter (entity : String) (user : User) (query : Value) : Except Failure Object := do
  let filter ← match query with
    | .object tree => pure tree
    | .text q => Filter.parse e.schema entity q.toList
    | _ => pure []
  e.rules.readWhere entity user filter

/-- A plan of the shape that was asked for, of all rows. -/
def selection (entity : String) (user : User) (includes fields : Value) : Except Failure Plan := do
  let shape ← Selection.compile (e.viewpoint user) e.settings.maxNestingDepth entity fields includes
  return { includes := shape.includes, selects := shape.selects, omits := shape.omits }

/-- The path by which records are sorted: the first key field, unless another is asked for. -/
def sortPath (entity : String) (sortBy : Value) : Except Failure String := do
  let en ← e.schema.entity entity
  let asked ← match sortBy with
    | .text s => pure (if s = "" then en.firstKey else s)
    | v => if v.isPresent then throw .illFormed else pure en.firstKey
  let path := trimText asked
  if path.toList.contains '.' || en.hasField path then return path
  else if en.isComposite && path == en.keyName then return en.firstKey
  else throw (.validation "invalid_sort_field"
    (some [("sortBy", .text path), ("entity", .text entity)]))

structure ListRequest where
  query : Value := .null
  includes : Value := .null
  fields : Value := .null
  limit : Value := .null
  offset : Value := .int 0
  sortBy : Value := .null
  sortOrder : Value := .text "asc"
  options : Value := .null
deriving Inhabited

def pageSize (limit : Value) : Except Failure Int :=
  Paging.take e.settings.resultLimit (if limit.isNull then .int e.settings.defaultLimit else limit)

def listPlan (entity : String) (user : User) (r : ListRequest) : Except Failure Plan := do
  let shape ← e.selection entity user r.includes r.fields
  let filter ← e.readFilter entity user r.query
  let order ← Paging.sort (.text (← e.sortPath entity r.sortBy)) r.sortOrder
  let take ← e.pageSize r.limit
  return { shape with filter, order := some order, take := some take, skip := some (Paging.skip r.offset) }

def keySelection (entity : String) : Except Failure Object :=
  return Object.ofMembers ((← e.schema.keys entity).map fun k => (k, .bool true))

/-- A selection of the scalars that the user may see. -/
def scalarSelection (entity : String) (user : User) : Except Failure Object := do
  let omission ← (e.viewpoint user).omission entity
  let names := (← e.schema.entity entity).scalars.map (·.name)
  return Selection.scalarTree omission names

/-- The shape in which a written record comes back: with all its relations. -/
def writePlan (entity : String) (user : User) : Except Failure Plan :=
  e.selection entity user (.text Include.allRelations) .null

/-! ## The border to the storage -/

/-- Asks the storage. Its faults become request errors; `payload` is what was being written. -/
def ask {α : Type} (payload : Object) (act : Act σ α) : Act σ α :=
  tryCatch act fun
    | .fault f => throw (.request (e.disclosure.requestError (.fault f) payload))
    | failure => throw failure

def runHooks (stage operation entity : String) (user : User) (context : HookContext → HookContext) :
    Act σ HookContext :=
  let start : HookContext := { entity, operation, stage, user := some user }
  e.hooks.execute stage operation (context start)

def payloadOf (v : Value) : Except Failure Object :=
  match v with
  | .object o => pure o
  | _ => throw .illFormed

/-- The second value unless it is null. -/
def given (default v : Value) : Value := if v.isNull then default else v

end Engine

end RecordGraph
