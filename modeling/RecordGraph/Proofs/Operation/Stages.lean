import RecordGraph.Operation.Write
import RecordGraph.Proofs.Access.Merge
import RecordGraph.Proofs.Operation.Running
import RecordGraph.Proofs.Relational.Keys

/-!
# Stages of a write

An update, an upsert and a deletion go through the same stages: the rules are asked, the hooks before the
write run, a condition and a payload are prepared, the storage is asked with the condition and what the
user may write in one filter, and the hooks after the write run.
-/

namespace RecordGraph

/-- What a write does to the row that answers to its filter. -/
inductive Deed where
  | set (changes : Object)
  /-- Without a row it creates one. -/
  | setOrCreate (changes whole : Object)
  | remove

namespace Engine

/-! ## Stages -/

/-- A write of one record that looks it up first. -/
inductive Write where
  | update (id data : Value)
  | upsert (data uniqueKey : Value)
  | delete (id : Value)

namespace Write

def operation : Write → String
  | update .. => "update"
  | upsert .. => "upsert"
  | delete _ => "delete"

/-- What the user has to be allowed to do to the row. -/
def action : Write → Action
  | update .. | upsert .. => .update
  | delete _ => .delete

def isUpsert : Write → Bool
  | upsert .. => true
  | update .. | delete _ => false

end Write

/-- A write that the rules let start. -/
structure Start where
  permission : Object
  id : Value := .null
  data : Value := .null
  uniqueKey : Value := .null

/-- What the hooks before a write are told. -/
def Start.context (s : Start) (c : HookContext) : HookContext :=
  { c with id := s.id, data := s.data, uniqueKey := s.uniqueKey }

/-- A write that is ready for the storage. -/
structure Prepared where
  condition : Object
  deed : Deed
  plan : Plan
  /-- What faults are told of. -/
  payload : Object := []
  /-- What the hooks after the write are told. -/
  id : Value := .null
  data : Value := .null
  softDelete : Value := .bool false

section Stages

variable {σ : Type} (e : Engine σ) (entity : String) (user : User)

def write : Write → Act σ Outcome
  | .update id data => e.update entity user id data
  | .upsert data uniqueKey => e.upsert entity user data uniqueKey
  | .delete id => e.delete entity user id

def permit : Write → Except Failure Start
  | .update id data => do
    let permission ← (e.viewpoint user).filterFor .update entity
    return { permission, id, data := .object (Object.without (← payloadOf data) e.settings.auditFields) }
  | .upsert data uniqueKey => do
    (e.viewpoint user).ensureCanCreate entity data
    let permission ← (e.viewpoint user).filterFor .update entity
    return { permission, data := .object (← payloadOf data), uniqueKey := ← e.uniqueKeyFor entity uniqueKey }
  | .delete id => do
    return { permission := ← (e.viewpoint user).filterFor .delete entity, id }

/-- Reads what the hooks left. -/
def prepare (s : Start) (before : HookContext) : Write → Except Failure Prepared
  | .update .. => do
    let id := given s.id before.id
    let condition ← Key.whereId e.schema entity id
    let payload ← payloadOf (given s.data before.data)
    let body ← (e.writer user).update entity (Key.idOf condition) payload
    return { condition, deed := .set body, plan := ← e.writePlan entity user, payload, id, data := .object body }
  | .upsert .. => do
    let payload ← payloadOf (given s.data before.data)
    let key ← Key.UniqueKey.ofValue before.uniqueKey
    let condition := key.condition payload
    let whole ← (e.writer user).create entity payload
    let changes ← (e.writer user).update entity (Key.idOf condition) payload
    return { condition, deed := .setOrCreate changes whole, plan := ← e.writePlan entity user, payload
             data := .object payload }
  | .delete .. => do
    let id := given s.id before.id
    let condition ← Key.whereId e.schema entity id
    let plan : Plan := { selects := some (← e.scalarSelection entity user) }
    if before.softDelete.isPresent && before.data.isPresent then
      let changes ← payloadOf before.data
      return { condition, deed := .set changes, plan, payload := changes, id, softDelete := before.softDelete }
    else return { condition, deed := .remove, plan, id, softDelete := before.softDelete }

def perform (filter : Object) (p : Prepared) : Act σ Object :=
  match p.deed with
  | .set changes => do
    required entity (← e.ask p.payload (e.storage.update entity filter changes (some p.plan)))
  | .setOrCreate changes whole => e.ask p.payload (e.storage.upsert entity filter whole changes (some p.plan))
  | .remove => do required entity (← e.ask p.payload (e.storage.delete entity filter (some p.plan)))

def conclude (operation : String) (p : Prepared) (record : Object) : Act σ Outcome := do
  let result := Outcome.value (.object record)
  let after ← e.runHooks "after" operation entity user fun c =>
    { c with id := p.id, data := p.data, outcome := result, softDelete := p.softDelete }
  return after.outcome.orElse result

theorem write_eq (w : Write) : e.write entity user w = (do
    let s ← (e.permit entity user w : Except Failure Start)
    let before ← e.runHooks "before" w.operation entity user s.context
    if before.abort.isPresent then return before.outcome
    let p ← (e.prepare entity user s before w : Except Failure Prepared)
    let record ← e.perform entity (Guard.merge p.condition s.permission) p
    e.conclude entity user w.operation p record) := by
  cases w with
  | update id data =>
      simp only [write, update, permit, prepare, Act.liftM_bind, Act.liftM_pure, bind_assoc, pure_bind, perform,
        conclude]
      rfl
  | upsert data uniqueKey =>
      simp only [write, upsert, permit, prepare, Act.liftM_bind, Act.liftM_pure, bind_assoc, pure_bind, perform,
        conclude]
      rfl
  | delete id =>
      simp only [write, delete, permit, prepare, Act.liftM_bind, Act.liftM_pure, bind_assoc, pure_bind, perform,
        conclude]
      congr 1; funext permission
      congr 1; funext before
      split
      · rfl
      · congr 1; funext condition
        congr 1; funext tree
        split
        · simp only [Act.liftM_bind, Act.liftM_pure, bind_assoc, pure_bind]
          rfl
        · simp only [Act.liftM_pure, bind_assoc, pure_bind]
          rfl

end Stages

/-! ## Writes that the rules refuse -/

section Refusal

variable {σ : Type} {e : Engine σ} {entity : String} {user : User} {w : Write}

theorem filterFor_denied {v : Viewpoint} {action : Action} {d : Decision} (hd : v.decide action entity = .ok d)
    (hden : d.denied = true) : v.filterFor action entity = .error (.access action.refusal entity) := by
  rw [Viewpoint.decide] at hd
  rw [Viewpoint.filterFor, Rules.filterFor, hd]
  cases d with
  | deny => rfl
  | allow | restrict => cases hden

theorem start_permission {s : Start} (h : e.permit entity user w = .ok s) :
    (e.viewpoint user).filterFor w.action entity = .ok s.permission := by
  cases w with
  | update id data =>
      obtain ⟨permission, hperm, h⟩ := bind_ok_iff.mp h
      obtain ⟨_, _, h⟩ := bind_ok_iff.mp h
      exact pure_ok_iff.mp h ▸ hperm
  | upsert data uniqueKey =>
      obtain ⟨_, _, h⟩ := bind_ok_iff.mp h
      obtain ⟨permission, hperm, h⟩ := bind_ok_iff.mp h
      obtain ⟨_, _, h⟩ := bind_ok_iff.mp h
      obtain ⟨_, _, h⟩ := bind_ok_iff.mp h
      exact pure_ok_iff.mp h ▸ hperm
  | delete id =>
      obtain ⟨permission, hperm, h⟩ := bind_ok_iff.mp h
      exact pure_ok_iff.mp h ▸ hperm

/-- A write to an entity that is closed to the user ends before any hook. -/
theorem write_denied {d : Decision} (hd : (e.viewpoint user).decide w.action entity = .ok d)
    (hden : d.denied = true)
    (hcreate : ∀ data uniqueKey, w = .upsert data uniqueKey → ∃ b, (e.viewpoint user).canCreate entity data = .ok b) :
    ∃ message, e.write entity user w = throw (.access message entity) := by
  suffices h : ∃ message, e.permit entity user w = .error (.access message entity) by
    obtain ⟨message, h⟩ := h
    exact ⟨message, by rw [write_eq, h]; rfl⟩
  have hdenied := filterFor_denied hd hden
  cases w with
  | update id data =>
      rw [Write.action] at hdenied
      exact ⟨_, by rw [permit, hdenied]; rfl⟩
  | upsert data uniqueKey =>
      rw [Write.action] at hdenied
      obtain ⟨b, hb⟩ := hcreate data uniqueKey rfl
      have hensure : (e.viewpoint user).ensureCanCreate entity data =
          if b then .ok () else .error (.access "no_permission_to_create" entity) := by
        rw [Viewpoint.canCreate] at hb
        rw [Viewpoint.ensureCanCreate, Rules.ensureCanCreate, hb]
        cases b <;> rfl
      cases b with
      | false => exact ⟨_, by rw [permit, hensure]; rfl⟩
      | true => exact ⟨_, by rw [permit, hensure, hdenied]; rfl⟩
  | delete id =>
      rw [Write.action] at hdenied
      exact ⟨_, by rw [permit, hdenied]; rfl⟩

end Refusal

/-! ## Writes that reach the storage -/

/-- The condition by which a write addresses its row: that of the id or of the unique key that the hooks
before it left. -/
def Write.condition (schema : Schema) (entity : String) (start : Start) (before : HookContext) :
    Write → Except Failure Object
  | .update .. | .delete _ => Key.whereId schema entity (given start.id before.id)
  | .upsert .. => do
    let payload ← payloadOf (given start.data before.data)
    return (← Key.UniqueKey.ofValue before.uniqueKey).condition payload

section Reaching

variable {σ : Type} {e : Engine σ} {entity : String} {user : User} {w : Write} {s t : σ} {start : Start}
  {before : HookContext} {p : Prepared}

/-- A write from one state that comes to ask the storage in another, which the hooks before it left. -/
structure Reaches (e : Engine σ) (entity : String) (user : User) (w : Write) (s : σ) (start : Start)
    (before : HookContext) (p : Prepared) (t : σ) : Prop where
  permitted : e.permit entity user w = .ok start
  hooked : (e.runHooks "before" w.operation entity user start.context).runOn s = (.ok before, t)
  continued : before.abort.isPresent = false
  prepared : e.prepare entity user start before w = .ok p

theorem Reaches.run (h : e.Reaches entity user w s start before p t) : (e.write entity user w).runOn s = (do
      let record ← e.perform entity (Guard.merge p.condition start.permission) p
      e.conclude entity user w.operation p record).runOn t := by
  rw [write_eq, h.permitted]
  refine (Act.runOn_bind_of Act.runOn_liftM).trans ?_
  refine (Act.runOn_bind_of h.hooked).trans ?_
  rw [h.continued, h.prepared]
  exact Act.runOn_bind_of Act.runOn_liftM

/-- A write that does not come to ask the storage leaves what its hooks left. -/
theorem write_unreached (h : ¬ ∃ start before p t, e.Reaches entity user w s start before p t) :
    ((e.write entity user w).runOn s).2 =
      ((do
        let start ← (e.permit entity user w : Except Failure Start)
        e.runHooks "before" w.operation entity user start.context : Act σ HookContext).runOn s).2 := by
  rw [write_eq, Act.runOn_bind, Act.runOn_bind, Act.runOn_liftM]
  cases hstart : e.permit entity user w with
  | error failure => rfl
  | ok start =>
      dsimp only
      rw [Act.runOn_bind]
      rcases hbefore : (e.runHooks "before" w.operation entity user start.context).runOn s with
        ⟨failure | before, t⟩
      · rfl
      · dsimp only
        cases habort : before.abort.isPresent with
        | true => rfl
        | false =>
            cases hprepare : e.prepare entity user start before w with
            | error failure => rfl
            | ok p => exact absurd ⟨start, before, p, t, hstart, hbefore, habort, hprepare⟩ h

/-- A write is prepared with the condition by which it addresses its row; only an upsert can create one. -/
theorem prepare_ok (h : e.prepare entity user start before w = .ok p) :
    w.condition e.schema entity start before = .ok p.condition ∧
      ((w.isUpsert = true ∧ ∃ changes whole, p.deed = .setOrCreate changes whole) ∨
        w.isUpsert = false ∧ ∀ changes whole, p.deed ≠ .setOrCreate changes whole) := by
  cases w with
  | update id data =>
      obtain ⟨condition, hcond, h⟩ := bind_ok_iff.mp h
      simp only [bind_ok_iff, pure_ok_iff] at h
      obtain ⟨_, _, _, _, _, _, rfl⟩ := h
      exact ⟨hcond, .inr ⟨rfl, nofun⟩⟩
  | upsert data uniqueKey =>
      simp only [prepare, bind_ok_iff, pure_ok_iff] at h
      obtain ⟨payload, hpayload, key, hkey, whole, _, changes, _, _, _, rfl⟩ := h
      refine ⟨?_, .inl ⟨rfl, changes, whole, rfl⟩⟩
      rw [Write.condition, hpayload, hkey]
      rfl
  | delete id =>
      obtain ⟨condition, hcond, h⟩ := bind_ok_iff.mp h
      obtain ⟨_, _, h⟩ := bind_ok_iff.mp h
      split at h
      · obtain ⟨_, _, h⟩ := bind_ok_iff.mp h
        cases pure_ok_iff.mp h
        exact ⟨hcond, .inr ⟨rfl, nofun⟩⟩
      · cases pure_ok_iff.mp h
        exact ⟨hcond, .inr ⟨rfl, nofun⟩⟩

theorem Write.condition_single {schema : Schema} {condition : Object}
    (h : w.condition schema entity start before = .ok condition) : ∃ k v, condition = [(k, v)] := by
  cases w with
  | update | delete => exact Key.whereId_single h
  | upsert data uniqueKey =>
      obtain ⟨payload, _, h⟩ := bind_ok_iff.mp h
      obtain ⟨key, _, h⟩ := bind_ok_iff.mp h
      exact pure_ok_iff.mp h ▸ Key.UniqueKey.condition_single

end Reaching

end Engine

end RecordGraph
