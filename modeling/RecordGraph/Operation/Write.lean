import RecordGraph.Operation.Engine

/-!
# Writing operations

Creating, updating, upserting and deleting one record. The rules are asked before any hook and any
call of the storage; rows that the user may not change are as good as missing.
-/

namespace RecordGraph

namespace Engine

variable {σ : Type} (e : Engine σ)

/-- Ends an operation on a row that the storage did not find. -/
def required (entity : String) (record : Option Object) : Act σ Object :=
  match record with
  | some r => pure r
  | none => throw (.access "no_permission" entity)

/-- Creates a record, which comes back with its relations. -/
def create (entity : String) (user : User) (data : Value) : Act σ Outcome := do
  (e.viewpoint user).ensureCanCreate entity data
  let data ← payloadOf data
  let before ← e.runHooks "before" "create" entity user fun c => { c with data := .object data }
  if before.abort.isPresent then return before.outcome
  let payload ← payloadOf (given (.object data) before.data)
  let body ← (e.writer user).create entity payload
  let plan ← e.writePlan entity user
  let record ← e.ask payload (e.storage.create entity body (some plan))
  let result := Outcome.value (.object record)
  let after ← e.runHooks "after" "create" entity user fun c =>
    { c with data := .object body, outcome := result }
  return after.outcome.orElse result

def update (entity : String) (user : User) (id data : Value) : Act σ Outcome := do
  let permission ← (e.viewpoint user).filterFor .update entity
  let data := Object.without (← payloadOf data) e.settings.auditFields
  let before ← e.runHooks "before" "update" entity user fun c =>
    { c with id := id, data := .object data }
  if before.abort.isPresent then return before.outcome
  let id := given id before.id
  let payload := given (.object data) before.data
  let condition ← Key.whereId e.schema entity id
  let payload ← payloadOf payload
  let body ← (e.writer user).update entity (Key.idOf condition) payload
  let plan ← e.writePlan entity user
  let record ← required entity (← e.ask payload
    (e.storage.update entity (Guard.merge condition permission) body (some plan)))
  let result := Outcome.value (.object record)
  let after ← e.runHooks "after" "update" entity user fun c =>
    { c with id := id, data := .object body, outcome := result }
  return after.outcome.orElse result

/-- The unique key that was asked for, or the key of the entity. -/
def uniqueKeyFor (entity : String) (asked : Value) : Except Failure Value :=
  if asked.isPresent then pure asked
  else return (Key.UniqueKey.ofEntity (← e.schema.entity entity)).toValue

/-- Updates the record that a unique key tells, or creates it. The payload is read both ways. -/
def upsert (entity : String) (user : User) (data uniqueKey : Value) : Act σ Outcome := do
  (e.viewpoint user).ensureCanCreate entity data
  let permission ← (e.viewpoint user).filterFor .update entity
  let data ← payloadOf data
  let asked ← e.uniqueKeyFor entity uniqueKey
  let before ← e.runHooks "before" "upsert" entity user fun c =>
    { c with data := .object data, uniqueKey := asked }
  if before.abort.isPresent then return before.outcome
  let payload ← payloadOf (given (.object data) before.data)
  let key ← Key.UniqueKey.ofValue before.uniqueKey
  let condition := key.condition payload
  let whole ← (e.writer user).create entity payload
  let changes ← (e.writer user).update entity (Key.idOf condition) payload
  let plan ← e.writePlan entity user
  let record ← e.ask payload
    (e.storage.upsert entity (Guard.merge condition permission) whole changes (some plan))
  let result := Outcome.value (.object record)
  let after ← e.runHooks "after" "upsert" entity user fun c =>
    { c with data := .object payload, outcome := result }
  return after.outcome.orElse result

/-- Deletes the record with an id. A hook can turn the deletion into an update. -/
def delete (entity : String) (user : User) (id : Value) : Act σ Outcome := do
  let permission ← (e.viewpoint user).filterFor .delete entity
  let before ← e.runHooks "before" "delete" entity user fun c => { c with id := id }
  if before.abort.isPresent then return before.outcome
  let id := given id before.id
  let condition := Guard.merge (← Key.whereId e.schema entity id) permission
  let plan : Plan := { selects := some (← e.scalarSelection entity user) }
  let record ←
    if before.softDelete.isPresent && before.data.isPresent then do
      let changes ← payloadOf before.data
      e.ask changes (e.storage.update entity condition changes (some plan))
    else e.ask [] (e.storage.delete entity condition (some plan))
  let record ← required entity record
  let result := Outcome.value (.object record)
  let after ← e.runHooks "after" "delete" entity user fun c =>
    { c with id := id, outcome := result, softDelete := before.softDelete }
  return after.outcome.orElse result

end Engine

end RecordGraph
