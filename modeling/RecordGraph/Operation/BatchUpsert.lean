import RecordGraph.Operation.Write

/-!
# Batches

Many rows are upserted in one pass: one look-up tells which of them are there, new rows are created
in one statement, or one by one if their relations are to be followed, and the others are updated.
Rows that fail are listed in the outcome.
-/

namespace RecordGraph

namespace Engine

variable {σ : Type} (e : Engine σ)

def existingKeys (tx : Access σ) (entity : String) (key : Key.UniqueKey) (rows : List Object) :
    Act σ (List (List String)) := do
  let known := rows.filter key.isGiven
  if known.isEmpty then return []
  let filter : Object := match key.fields with
    | [field] => [(field, .object [("in", .list (known.map fun row => Object.get row field))])]
    | fields =>
      [("OR", .list (known.map fun row =>
        .object (Object.ofMembers (fields.map fun f => (f, Object.get row f)))))]
  let selects := Object.ofMembers (key.fields.map fun f => (f, .bool true))
  let found ← tx.findMany entity { filter, selects := some selects }
  found.mapM fun
    | .object record => pure (key.texts record)
    | _ => throw .illFormed

/-- A row that a fault kept from being written. -/
def failedRow (f : StorageFault) (record : Option Object) (records : Option (List Object)) : FailedRow :=
  { record, records
    code := some f.label.text
    message := (e.disclosure.requestError (.fault f) (record.getD [])).message }

/-- Does one write; a fault is added to the failed rows. -/
def collect {α : Type} (batch : Batch) (record : Option Object)
    (records : Option (List Object)) (act : Act σ α) (count : α → Batch) : Act σ Batch :=
  tryCatch (count <$> act) fun
    | .fault f => pure (batch.fail (e.failedRow f record records))
    | failure => throw failure

/-- What is to be done with the rows of a batch. -/
structure Sorted where
  creates : List Object := []
  updates : List (Object × Object) := []
  batch : Batch := {}

/-- Sorts one row: rows that are there are updated, others created if the user may. -/
def sortRow (entity : String) (user : User) (key : Key.UniqueKey) (followRelations : Bool)
    (existing : List (List String)) (s : Sorted) (row : Object) : Except Failure Sorted := do
  if existing.contains (key.texts row) then
    let condition := key.condition row
    let changes ← (e.writer user).update entity (Key.idOf condition) row
    return { s with updates := s.updates ++ [(condition, changes)] }
  else if !(← (e.viewpoint user).canCreate entity (.object row)) then
    let refusal := "no_permission_to_create"
    return { s with
      batch := s.batch.fail { record := some row, code := some refusal, message := refusal } }
  else
    let body ←
      if followRelations then (e.writer user).create entity row else (e.writer user).strip entity row
    return { s with creates := s.creates ++ [body] }

def createRows (tx : Access σ) (entity : String) (followRelations : Bool)
    (creates : List Object) (batch : Batch) : Act σ Batch :=
  if creates.isEmpty then pure batch
  else if followRelations then
    creates.foldlM
      (fun batch body => e.collect batch (some body) none (tx.create entity body none)
        fun _ => { batch with created := batch.created + 1 })
      batch
  else
    e.collect batch none (some creates) (tx.createMany entity creates)
      fun n => { batch with created := n }

def updateRows (tx : Access σ) (entity : String) (permission : Object)
    (updates : List (Object × Object)) (batch : Batch) : Act σ Batch :=
  updates.foldlM
    (fun batch (condition, changes) =>
      e.collect batch (some changes) none
        (tx.update entity (Guard.merge condition permission) changes none)
        fun
          | some _ => { batch with updated := batch.updated + 1 }
          | none => batch.fail
            { record := some changes, code := some "no_permission", message := "no_permission" })
    batch

/-- The work of a batch on a storage. -/
def upsertRows (tx : Access σ) (entity : String) (user : User) (permission : Object)
    (key : Key.UniqueKey) (followRelations : Bool) (rows : List Value) : Act σ Batch := do
  let rows ← Act.ofExcept (rows.mapM payloadOf)
  let existing ← existingKeys tx entity key rows
  let sorted ← Act.ofExcept
    (rows.foldlM (e.sortRow entity user key followRelations existing) ({} : Sorted))
  let batch ← e.createRows tx entity followRelations sorted.creates sorted.batch
  let batch ← e.updateRows tx entity permission sorted.updates batch
  return batch.finalize

structure BatchRequest where
  rows : List Value
  uniqueKey : Value := .null
  /-- Create rows one by one, with their relations. -/
  followRelations : Bool := false
  transaction : Bool := true
  timeout : Value := .null
deriving Inhabited

/-- The time that a batch may take: its own limit, or that of the installation. -/
def BatchRequest.limit (r : BatchRequest) (settings : Settings) : Value :=
  if r.timeout.isNull then .float settings.batchTimeout else r.timeout

/-- Creates or updates many rows. -/
def upsertMany (entity : String) (user : User) (r : BatchRequest) : Act σ Outcome := do
  if r.rows.isEmpty then return .batch {}
  let permission ← (e.viewpoint user).filterFor .update entity
  let asked ← e.uniqueKeyFor entity r.uniqueKey
  let before ← e.runHooks "before" "upsert_many" entity user fun c =>
    { c with data := .list r.rows, uniqueKey := asked }
  if before.abort.isPresent then return before.outcome
  let given := match before.data with
    | .list rows => rows
    | _ => r.rows
  let key ← Key.UniqueKey.ofValue before.uniqueKey
  let work (tx : Access σ) : Act σ Batch :=
    e.upsertRows tx entity user permission key r.followRelations given
  let batch ← e.ask [] (
    if r.transaction then e.storage.inTransaction (r.limit e.settings) work
    else work e.storage.toAccess)
  let result := Outcome.batch batch
  let after ← e.runHooks "after" "upsert_many" entity user fun c =>
    { c with data := .list given, outcome := result }
  return after.outcome.orElse result

end Engine

end RecordGraph
