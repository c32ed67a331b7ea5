import RecordGraph.Operation.Engine

/-!
# Reading operations

Lists, single records and counts. Every one is guarded by what the user may read, whatever a hook
makes of the request.
-/

namespace RecordGraph

namespace Engine

variable {σ : Type} (e : Engine σ)

def optionsOf (v : Value) : Except Failure Value :=
  match v with
  | .object o => pure (.object o)
  | v => if v.isPresent then throw .illFormed else pure (.object [])

/-- A page of records, with the number of all that there are. Both are read in one transaction. -/
def getMany (entity : String) (user : User) (r : ListRequest) : Act σ Outcome := do
  let take ← e.pageSize r.limit
  let skip := Paging.skip r.offset
  let path ← e.sortPath entity r.sortBy
  let options ← optionsOf r.options
  let before ← e.runHooks "before" "get_many" entity user fun c =>
    { c with
      query := r.query, includes := r.includes, fields := r.fields, take := .int take
      offset := .int skip, sortBy := .text path, sortOrder := r.sortOrder, options }
  if before.abort.isPresent then
    return before.outcome.orElse (.page { records := [], take, skip, total := some 0 })
  let plan ← e.listPlan entity user {
    query := before.query
    includes := before.includes
    fields := before.fields
    limit := if before.take.isPresent then before.take else .int take
    offset := given (.int skip) before.offset
    sortBy := if before.sortBy.isPresent then before.sortBy else .text path
    sortOrder := if before.sortOrder.isPresent then before.sortOrder else r.sortOrder }
  let (records, total) ← e.ask [] (e.storage.inTransaction .null fun tx => do
    let records ← tx.findMany entity plan
    let total ← tx.count entity plan.filter
    return (records, total))
  let page : Outcome :=
    .page { records, take := plan.take.getD take, skip := plan.skip.getD skip, total := some total }
  let after ← e.runHooks "after" "get_many" entity user fun c => { c with outcome := page }
  return after.outcome.orElse page

structure GetRequest where
  id : Value
  includes : Value := .null
  fields : Value := .null
  options : Value := .null
deriving Inhabited

/-- The members of the options that ask for more fields to be left out. -/
def extraOmission (options : Value) : Except Failure Object := do
  let .object options := options | throw .illFormed
  match Object.get options "omit" with
  | .object extra => return extra
  | v => if v.isPresent then throw .illFormed else return []

/-- A record by its key. It is looked for twice: in the shape that was asked for, and by its key
among what the user may read. Where the first finds nothing there is no such record; where the
second does not find the same record, the user may not read it. -/
def get (entity : String) (user : User) (r : GetRequest) : Act σ Outcome := do
  let options ← optionsOf r.options
  let before ← e.runHooks "before" "get" entity user fun c =>
    { c with id := r.id, includes := r.includes, fields := r.fields, options }
  if before.abort.isPresent then return before.outcome
  let id := given r.id before.id
  let condition ← Key.whereId e.schema entity id
  let shape ← e.selection entity user before.includes before.fields
  let extra ← if shape.selects.isNone then (extraOmission before.options : Except _ _) else do
    let .object _ := before.options | throw .illFormed
    pure []
  let omits := if extra.isEmpty then shape.omits else some (Object.update (shape.omits.getD []) extra)
  let plan : Plan := { shape with filter := condition, omits }
  let permission ← (e.viewpoint user).filterFor .read entity
  let probe : Plan :=
    { filter := Guard.merge condition permission, selects := some (← e.keySelection entity) }
  let (found, permitted) ← e.ask [] (do
    let found ← (e.storage.findUnique entity plan).attempt
    let permitted ← (e.storage.findUnique entity probe).attempt
    return (← (found : Except _ _), ← (permitted : Except _ _)))
  match found with
  | none | some [] => throw (.request (.notFound "record_not_found" entity))
  | some record =>
    if !Key.agree (← e.schema.keys entity) (permitted.getD []) record then
      throw (.access "no_permission" entity)
    let result := Outcome.value (.object record)
    let after ← e.runHooks "after" "get" entity user fun c => { c with id := id, outcome := result }
    return after.outcome.orElse result

def count (entity : String) (user : User) (query : Value) : Act σ Outcome := do
  let before ← e.runHooks "before" "count" entity user fun c => { c with query := query }
  if before.abort.isPresent then return before.outcome.orElse (.value (.int 0))
  let query := given query before.query
  let filter ← e.readFilter entity user query
  let total ← e.ask [] (e.storage.count entity filter)
  let result := Outcome.value (.int total)
  let after ← e.runHooks "after" "count" entity user fun c =>
    { c with query := query, outcome := result }
  match after.outcome with
  | .value .null => return result
  | outcome => return outcome

end Engine

end RecordGraph
