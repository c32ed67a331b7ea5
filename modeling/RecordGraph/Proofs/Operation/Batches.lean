import Mathlib.Algebra.BigOperators.Group.List.Basic
import Mathlib.Algebra.Ring.Int.Defs
import RecordGraph.Operation.BatchUpsert
import RecordGraph.Proofs.Failure.Success
import RecordGraph.Proofs.Operation.Recording

/-!
# The course of a batch

A batch decides on each row by itself: it is updated, created or refused. The writes that this comes to
are made one after the other, and the outcome of the batch is the sum of what the storage answered.
-/

namespace RecordGraph

/-! ## What is decided on a row -/

inductive Fate where
  | update (condition changes : Object)
  | create (body : Object)
  | refuse (row : Object)

namespace Fate

def update? : Fate → Option (Object × Object)
  | update condition changes => some (condition, changes)
  | create _ | refuse _ => none

def create? : Fate → Option Object
  | create body => some body
  | update .. | refuse _ => none

def refusal? : Fate → Option FailedRow
  | refuse row =>
    some { record := some row, code := some "no_permission_to_create", message := "no_permission_to_create" }
  | update .. | create _ => none

/-- Every fate is one of three. -/
theorem length_parts (fates : List Fate) :
    (fates.filterMap create?).length + (fates.filterMap update?).length + (fates.filterMap refusal?).length =
      fates.length := by
  induction fates with
  | nil => rfl
  | cons fate fates ih =>
      cases fate with
      | update _ _ =>
          simp only [List.filterMap_cons, update?, create?, refusal?, List.length_cons]
          omega
      | create _ =>
          simp only [List.filterMap_cons, update?, create?, refusal?, List.length_cons]
          omega
      | refuse _ =>
          simp only [List.filterMap_cons, update?, create?, refusal?, List.length_cons]
          omega

end Fate

namespace Engine

section Sorting

variable {σ : Type} (e : Engine σ) (entity : String) (user : User) (key : Key.UniqueKey)
  (follow : Bool) (existing : List (List String))

def fateOf (row : Object) : Except Failure Fate := do
  if existing.contains (key.texts row) then
    let condition := key.condition row
    return .update condition (← (e.writer user).update entity (Key.idOf condition) row)
  else if !(← (e.viewpoint user).canCreate entity (.object row)) then return .refuse row
  else
    return .create (← if follow then (e.writer user).create entity row else (e.writer user).strip entity row)

def Sorted.add (s : Sorted) : Fate → Sorted
  | .update condition changes => { s with updates := s.updates ++ [(condition, changes)] }
  | .create body => { s with creates := s.creates ++ [body] }
  | .refuse row =>
    let refusal := "no_permission_to_create"
    { s with batch := s.batch.fail { record := some row, code := some refusal, message := refusal } }

theorem sortRow_eq (s : Sorted) (row : Object) :
    e.sortRow entity user key follow existing s row = s.add <$> e.fateOf entity user key follow existing row := by
  unfold sortRow fateOf
  split
  · rw [map_eq_pure_bind, bind_assoc]
    simp only [pure_bind]
    rfl
  · rw [map_eq_pure_bind, bind_assoc]
    congr 1
    funext allowed
    split
    · rfl
    · cases follow with
      | true =>
          simp only [if_true, bind_assoc, pure_bind]
          rfl
      | false =>
          simp only [Bool.false_eq_true, if_false, bind_assoc, pure_bind]
          rfl

theorem sortRows_eq (rows : List Object) (s : Sorted) :
    rows.foldlM (e.sortRow entity user key follow existing) s =
      (fun fates => fates.foldl Sorted.add s) <$> rows.mapM (e.fateOf entity user key follow existing) := by
  induction rows generalizing s with
  | nil => rfl
  | cons row rows ih =>
      rw [List.foldlM_cons, List.mapM_cons, sortRow_eq]
      simp only [map_eq_pure_bind, bind_assoc, pure_bind, ih, List.foldl_cons]

theorem sorted_eq (fates : List Fate) (s : Sorted) :
    fates.foldl Sorted.add s =
      { creates := s.creates ++ fates.filterMap Fate.create?
        updates := s.updates ++ fates.filterMap Fate.update?
        batch := { s.batch with failed := s.batch.failed ++ fates.filterMap Fate.refusal? } } := by
  induction fates generalizing s with
  | nil => simp
  | cons fate fates ih =>
      rw [List.foldl_cons, ih]
      cases fate <;>
        simp [Sorted.add, List.filterMap_cons, Fate.update?, Fate.create?, Fate.refusal?, Batch.fail]

end Sorting

end Engine

/-! ## The rows that are there -/

namespace Key.UniqueKey

/-- Asks for the rows that have the key of a known row. -/
def lookup (key : UniqueKey) (known : List Object) : Plan :=
  { filter := match key.fields with
      | [field] => [(field, .object [("in", .list (known.map fun row => Object.get row field))])]
      | fields =>
        [("OR", .list (known.map fun row =>
          .object (Object.ofMembers (fields.map fun f => (f, Object.get row f)))))]
    selects := some (Object.ofMembers (key.fields.map fun f => (f, .bool true))) }

def recordTexts (key : UniqueKey) : Value → Except Failure (List String)
  | .object record => pure (key.texts record)
  | _ => throw .illFormed

end Key.UniqueKey

namespace Engine

theorem existingKeys_eq {σ : Type} (tx : Access σ) (entity : String) (key : Key.UniqueKey) (rows : List Object) :
    existingKeys tx entity key rows =
      if (rows.filter key.isGiven).isEmpty then pure []
      else tx.findMany entity (key.lookup (rows.filter key.isGiven)) >>= fun found =>
        Act.ofExcept (found.mapM key.recordTexts) := by
  have hread (found : List Value) :
      (found.mapM (fun
        | .object record => pure (key.texts record)
        | _ => throw .illFormed) : Act σ (List (List String))) = Act.ofExcept (found.mapM key.recordTexts) := by
    induction found with
    | nil => rfl
    | cons v found ih =>
        rw [List.mapM_cons, List.mapM_cons, ih]
        cases v with
        | object record =>
            rw [Key.UniqueKey.recordTexts, pure_bind, pure_bind]
            cases found.mapM key.recordTexts <;> rfl
        | null | bool _ | int _ | float _ | decimal _ | date _ | datetime _ | text _ | list _ => rfl
  rw [existingKeys]
  split
  · rfl
  · refine congrArg (tx.findMany entity (key.lookup _) >>= ·) ?_
    funext found
    exact hread found

end Engine

/-! ## What a batch asks of its storage -/

/-- A write of a batch, and what the storage answered. -/
inductive Deal where
  | create (body : Object) (answer : Except StorageFault Object)
  | createMany (bodies : List Object) (answer : Except StorageFault Int)
  | update (filter changes : Object) (answer : Except StorageFault (Option Object))

namespace Deal

variable {σ : Type}

def call (entity : String) : Deal → Call
  | create body _ => .create entity body none
  | createMany bodies _ => .createMany entity bodies
  | update filter changes _ => .update entity filter changes none

/-- The storage answers so, and is left so. -/
def Made (tx : Access σ) (entity : String) (s : σ) : Deal → σ → Prop
  | create body answer, t => (tx.create entity body none).runOn s = (answer.mapError .fault, t)
  | createMany bodies answer, t => (tx.createMany entity bodies).runOn s = (answer.mapError .fault, t)
  | update filter changes answer, t =>
    (tx.update entity filter changes none).runOn s = (answer.mapError .fault, t)

def created : Deal → Int
  | create _ (.ok _) => 1
  | createMany _ (.ok n) => n
  | _ => 0

def updated : Deal → Int
  | update _ _ (.ok (some _)) => 1
  | _ => 0

def failure? (e : Engine σ) : Deal → Option FailedRow
  | create body (.error f) => some (e.failedRow f (some body) none)
  | createMany bodies (.error f) => some (e.failedRow f none (some bodies))
  | update _ changes (.error f) => some (e.failedRow f (some changes) none)
  | update _ changes (.ok none) =>
    some { record := some changes, code := some "no_permission", message := "no_permission" }
  | create _ (.ok _) | createMany _ (.ok _) | update _ _ (.ok (some _)) => none

end Deal

/-- Writes that are made one after the other. -/
inductive Dealt {σ : Type} (tx : Access σ) (entity : String) : σ → List Deal → σ → Prop where
  | nil {s} : Dealt tx entity s [] s
  | cons {s u t d deals} (made : d.Made tx entity s u) (rest : Dealt tx entity u deals t) :
      Dealt tx entity s (d :: deals) t

theorem Dealt.append {σ : Type} {tx : Access σ} {entity : String} {s u t : σ} {first second : List Deal}
    (h : Dealt tx entity s first u) (h' : Dealt tx entity u second t) :
    Dealt tx entity s (first ++ second) t := by
  induction h with
  | nil => exact h'
  | cons made _ ih => exact .cons made (ih h')

theorem Dealt.at {σ : Type} {tx : Access σ} {entity : String} {s t : σ} {first last : List Deal} {d : Deal}
    (h : Dealt tx entity s (first ++ d :: last) t) :
    ∃ u v, Dealt tx entity s first u ∧ d.Made tx entity u v ∧ Dealt tx entity v last t := by
  induction first generalizing s with
  | nil =>
      cases h with
      | cons made rest => exact ⟨s, _, .nil, made, rest⟩
  | cons _ first ih =>
      cases h with
      | cons made rest =>
          obtain ⟨u, v, hfirst, hd, hlast⟩ := ih rest
          exact ⟨u, v, .cons made hfirst, hd, hlast⟩

theorem Dealt.one {σ : Type} {tx : Access σ} {entity : String} {s t : σ} {d : Deal}
    (h : d.Made tx entity s t) : Dealt tx entity s [d] t := .cons h .nil

namespace Engine

variable {σ : Type}

/-- An account to which the answers of the storage are added. -/
def account (e : Engine σ) (b : Batch) (deals : List Deal) : Batch :=
  { b with
    created := b.created + (deals.map Deal.created).sum
    updated := b.updated + (deals.map Deal.updated).sum
    failed := b.failed ++ deals.filterMap (Deal.failure? e) }

theorem account_append (e : Engine σ) (b : Batch) (first second : List Deal) :
    e.account b (first ++ second) = e.account (e.account b first) second := by
  simp [account, List.sum_append, Int.add_assoc]

variable {e : Engine σ} {tx : Access σ} {entity : String} {permission : Object} {batch next : Batch} {s t : σ}

theorem collect_run {α : Type} {record : Option Object} {records : Option (List Object)} {act : Act σ α}
    {count : α → Batch} : (e.collect batch record records act count).runOn s = match act.runOn s with
      | (.ok a, t) => (.ok (count a), t)
      | (.error (.fault f), t) => (.ok (batch.fail (e.failedRow f record records)), t)
      | (.error failure, t) => (.error failure, t) := by
  rw [collect, map_eq_pure_bind, Act.runOn_tryCatch, Act.runOn_bind]
  rcases act.runOn s with ⟨failure | a, t⟩
  · cases failure <;> rfl
  · rfl

theorem collect_done {α : Type} {record : Option Object} {records : Option (List Object)} {act : Act σ α}
    {count : α → Batch} {a : α} (h : act.runOn s = (.ok a, t)) :
    (e.collect batch record records act count).runOn s = (.ok (count a), t) := by
  rw [collect_run, h]

theorem collect_faulted {α : Type} {record : Option Object} {records : Option (List Object)} {act : Act σ α}
    {count : α → Batch} {f : StorageFault} (h : act.runOn s = (.error (.fault f), t)) :
    (e.collect batch record records act count).runOn s = (.ok (batch.fail (e.failedRow f record records)), t) := by
  rw [collect_run, h]

theorem collect_ok {α : Type} {record : Option Object} {records : Option (List Object)} {act : Act σ α}
    {count : α → Batch} (h : (e.collect batch record records act count).runOn s = (.ok next, t)) :
    ∃ answer : Except StorageFault α, act.runOn s = (answer.mapError .fault, t) ∧
      next = match answer with
        | .ok a => count a
        | .error f => batch.fail (e.failedRow f record records) := by
  rw [collect_run] at h
  rcases hact : act.runOn s with ⟨failure | a, u⟩ <;> rw [hact] at h
  · cases failure with
    | fault f => cases h; exact ⟨.error f, rfl, rfl⟩
    | request _ | engine _ | schema _ | hook _ | foreign _ | illFormed => cases h
  · cases h
    exact ⟨.ok a, rfl, rfl⟩

/-- A loop of which every round is one write. -/
theorem rounds_dealt {α : Type} {round : Batch → α → Act σ Batch} {call : α → Call} {items : List α}
    (hround : ∀ {b b' a s t}, (round b a).runOn s = (.ok b', t) →
      ∃ d : Deal, d.Made tx entity s t ∧ d.call entity = call a ∧ b' = e.account b [d])
    (h : (items.foldlM round batch).runOn s = (.ok next, t)) :
    ∃ deals, Dealt tx entity s deals t ∧ deals.map (Deal.call entity) = items.map call ∧
      next = e.account batch deals := by
  induction items generalizing batch s with
  | nil =>
      obtain ⟨rfl, rfl⟩ := Act.runOn_pure_ok_iff.mp h
      exact ⟨[], .nil, rfl, by simp [account]⟩
  | cons a items ih =>
      rw [List.foldlM_cons] at h
      obtain ⟨b, u, ha, hrest⟩ := Act.runOn_bind_ok_iff.mp h
      obtain ⟨d, hmade, hcall, rfl⟩ := hround ha
      obtain ⟨deals, hdealt, hcalls, rfl⟩ := ih hrest
      refine ⟨d :: deals, .cons hmade hdealt, ?_, ?_⟩
      · rw [List.map_cons, List.map_cons, hcall, hcalls]
      · exact (account_append e batch [d] deals).symm

/-- The calls by which new rows are written. -/
def createCalls (entity : String) (follow : Bool) (bodies : List Object) : List Call :=
  if bodies.isEmpty then []
  else if follow then bodies.map fun body => .create entity body none
  else [.createMany entity bodies]

/-- The calls by which rows are changed. -/
def updateCalls (entity : String) (permission : Object) (updates : List (Object × Object)) : List Call :=
  updates.map fun (condition, changes) => .update entity (Guard.merge condition permission) changes none

/-- A statement for all new rows sets their count, so none may have been counted before. -/
theorem createRows_dealt {follow : Bool} {bodies : List Object} (hb : batch.created = 0)
    (h : (e.createRows tx entity follow bodies batch).runOn s = (.ok next, t)) :
    ∃ deals, Dealt tx entity s deals t ∧ deals.map (Deal.call entity) = createCalls entity follow bodies ∧
      next = e.account batch deals := by
  rw [createRows] at h
  rw [createCalls]
  split at h
  next hempty =>
    obtain ⟨rfl, rfl⟩ := Act.runOn_pure_ok_iff.mp h
    exact ⟨[], .nil, by rw [if_pos hempty]; rfl, by simp [account]⟩
  next hempty =>
    rw [if_neg hempty]
    split at h
    next hfollow =>
      rw [if_pos hfollow]
      refine rounds_dealt (fun {b b' body s t} hround => ?_) h
      obtain ⟨answer, hrun, rfl⟩ := collect_ok hround
      refine ⟨.create body answer, hrun, rfl, ?_⟩
      cases answer <;> simp [account, Deal.created, Deal.updated, Deal.failure?, Batch.fail]
    next hfollow =>
      rw [if_neg hfollow]
      obtain ⟨answer, hrun, rfl⟩ := collect_ok h
      refine ⟨[.createMany bodies answer], .one hrun, rfl, ?_⟩
      cases answer <;> simp [account, Deal.created, Deal.updated, Deal.failure?, Batch.fail, hb]

theorem updateRows_dealt {updates : List (Object × Object)}
    (h : (e.updateRows tx entity permission updates batch).runOn s = (.ok next, t)) :
    ∃ deals, Dealt tx entity s deals t ∧ deals.map (Deal.call entity) = updateCalls entity permission updates ∧
      next = e.account batch deals := by
  refine rounds_dealt (fun {b b' p s t} hround => ?_) h
  obtain ⟨condition, changes⟩ := p
  obtain ⟨answer, hrun, rfl⟩ := collect_ok hround
  refine ⟨.update (Guard.merge condition permission) changes answer, hrun, rfl, ?_⟩
  rcases answer with f | _ | record <;>
    simp [account, Deal.created, Deal.updated, Deal.failure?, Batch.fail]

/-! ## A batch that is worked on to its end -/

/-- What a batch asks, once its rows are sorted. -/
def batchCalls (entity : String) (permission : Object) (follow : Bool) (fates : List Fate) : List Call :=
  createCalls entity follow (fates.filterMap Fate.create?) ++
    updateCalls entity permission (fates.filterMap Fate.update?)

/-- The look-up leaves the storage at `looked`, the writes at `t`. -/
structure BatchRun (e : Engine σ) (tx : Access σ) (entity : String) (user : User) (permission : Object)
    (key : Key.UniqueKey) (follow : Bool) (payloads : List Object) (s looked t : σ)
    (existing : List (List String)) (fates : List Fate) (deals : List Deal) (batch : Batch) : Prop where
  found : (existingKeys tx entity key payloads).runOn s = (.ok existing, looked)
  sorted : List.Forall₂ (fun row fate => e.fateOf entity user key follow existing row = .ok fate) payloads fates
  dealt : Dealt tx entity looked deals t
  asked : deals.map (Deal.call entity) = batchCalls entity permission follow fates
  account : batch = (e.account { failed := fates.filterMap Fate.refusal? } deals).finalize

/-- New rows are written first. -/
theorem BatchRun.parts {user : User} {key : Key.UniqueKey} {follow : Bool} {payloads : List Object}
    {existing : List (List String)} {fates : List Fate} {deals : List Deal} {looked : σ}
    (h : e.BatchRun tx entity user permission key follow payloads s looked t existing fates deals batch) :
    ∃ news changes, deals = news ++ changes ∧
      news.map (Deal.call entity) = createCalls entity follow (fates.filterMap Fate.create?) ∧
      changes.map (Deal.call entity) = updateCalls entity permission (fates.filterMap Fate.update?) :=
  List.map_eq_append_iff.mp h.asked

theorem createCalls_together {news : List Deal} {bodies : List Object}
    (h : news.map (Deal.call entity) = createCalls entity false bodies) :
    (bodies = [] ∧ news = []) ∨ ∃ answer, news = [.createMany bodies answer] := by
  cases bodies with
  | nil => exact .inl ⟨rfl, List.map_eq_nil_iff.mp h⟩
  | cons body bodies =>
      obtain ⟨d, rfl, hd⟩ := List.map_eq_singleton_iff.mp h
      cases d with
      | createMany _ answer => cases hd; exact .inr ⟨answer, rfl⟩
      | create _ _ | update _ _ _ => cases hd

theorem updateCalls_made {changes : List Deal} {updates : List (Object × Object)}
    (h : changes.map (Deal.call entity) = updateCalls entity permission updates) :
    ∀ d ∈ changes, ∃ filter body answer, d = .update filter body answer := by
  intro d hd
  obtain ⟨_, _, hcall⟩ := List.mem_map.mp (h ▸ List.mem_map_of_mem hd : d.call entity ∈ updateCalls ..)
  cases d with
  | update _ _ _ => exact ⟨_, _, _, rfl⟩
  | create _ _ | createMany _ _ => cases hcall

theorem updateCalls_created {changes : List Deal} {updates : List (Object × Object)}
    (h : changes.map (Deal.call entity) = updateCalls entity permission updates) :
    (changes.map Deal.created).sum = 0 := by
  refine List.sum_eq_zero (List.forall_mem_map.mpr fun d hd => ?_)
  obtain ⟨_, _, _, rfl⟩ := updateCalls_made h d hd
  rfl

theorem upsertRows_ok {user : User} {key : Key.UniqueKey} {follow : Bool} {rows : List Value}
    (hrun : (e.upsertRows tx entity user permission key follow rows).runOn s = (.ok batch, t)) :
    ∃ payloads existing looked fates deals, rows.mapM payloadOf = .ok payloads ∧
      e.BatchRun tx entity user permission key follow payloads s looked t existing fates deals batch := by
  rw [upsertRows] at hrun
  obtain ⟨payloads, s₁, hgiven, h⟩ := Act.runOn_bind_ok_iff.mp hrun
  obtain ⟨hpayloads, rfl⟩ := Act.runOn_liftM_ok_iff.mp hgiven
  obtain ⟨existing, looked, hfound, h⟩ := Act.runOn_bind_ok_iff.mp h
  obtain ⟨sorted, s₂, hsorting, h⟩ := Act.runOn_bind_ok_iff.mp h
  obtain ⟨made, s₃, hcreates, h⟩ := Act.runOn_bind_ok_iff.mp h
  obtain ⟨done, s₄, hupdates, h⟩ := Act.runOn_bind_ok_iff.mp h
  obtain ⟨rfl, rfl⟩ := Act.runOn_pure_ok_iff.mp h
  obtain ⟨hsorted, rfl⟩ := Act.runOn_liftM_ok_iff.mp hsorting
  rw [sortRows_eq] at hsorted
  obtain ⟨fates, hfates, rfl⟩ := map_ok_iff.mp hsorted
  rw [sorted_eq] at hcreates hupdates
  obtain ⟨first, hfirst, hfirstCalls, rfl⟩ := createRows_dealt rfl hcreates
  obtain ⟨second, hsecond, hsecondCalls, rfl⟩ := updateRows_dealt hupdates
  refine ⟨payloads, existing, _, fates, first ++ second, hpayloads, hfound, mapM_ok_forall₂ hfates,
    hfirst.append hsecond, ?_, ?_⟩
  · rw [List.map_append, hfirstCalls, hsecondCalls]
    rfl
  · rw [account_append]
    rfl

/-! ## A batch that comes to its storage -/

/-- A batch that is ready for the storage. -/
structure ReadyBatch where
  permission : Object
  key : Key.UniqueKey
  rows : List Value

/-- What the hooks before a batch are told. -/
def BatchRequest.context (r : BatchRequest) (asked : Value) (c : HookContext) : HookContext :=
  { c with data := .list r.rows, uniqueKey := asked }

/-- The rules and the hooks let a batch come to its storage, in the state `reached`. -/
structure BatchReaches (e : Engine σ) (entity : String) (user : User) (r : BatchRequest) (s : σ) (asked : Value)
    (before : HookContext) (b : ReadyBatch) (reached : σ) : Prop where
  some_rows : r.rows.isEmpty = false
  permitted : (e.viewpoint user).filterFor .update entity = .ok b.permission
  keyed : e.uniqueKeyFor entity r.uniqueKey = .ok asked
  hooked : (e.runHooks "before" "upsert_many" entity user (r.context asked)).runOn s = (.ok before, reached)
  continued : before.abort.isPresent = false
  told : Key.UniqueKey.ofValue before.uniqueKey = .ok b.key
  given : b.rows = match before.data with
    | .list rows => rows
    | _ => r.rows

/-- What a batch does with its storage. -/
def batchWork (e : Engine σ) (entity : String) (user : User) (r : BatchRequest) (b : ReadyBatch)
    (tx : Access σ) : Act σ Batch :=
  e.upsertRows tx entity user b.permission b.key r.followRelations b.rows

def performBatch (e : Engine σ) (entity : String) (user : User) (r : BatchRequest) (b : ReadyBatch) : Act σ Batch :=
  if r.transaction then e.storage.inTransaction (r.limit e.settings) (e.batchWork entity user r b)
  else e.batchWork entity user r b e.storage.toAccess

def concludeBatch (e : Engine σ) (entity : String) (user : User) (b : ReadyBatch) (batch : Batch) :
    Act σ Outcome := do
  let after ← e.runHooks "after" "upsert_many" entity user fun c =>
    { c with data := .list b.rows, outcome := .batch batch }
  return after.outcome.orElse (.batch batch)

theorem BatchReaches.run {user : User} {r : BatchRequest} {asked : Value} {before : HookContext} {b : ReadyBatch}
    {reached : σ} (h : e.BatchReaches entity user r s asked before b reached) :
    (e.upsertMany entity user r).runOn s =
      (e.ask [] (e.performBatch entity user r b) >>= e.concludeBatch entity user b).runOn reached := by
  obtain ⟨permission, key, rows⟩ := b
  rw [upsertMany, if_neg (by rw [h.some_rows]; exact Bool.false_ne_true)]
  refine (Act.runOn_bind_of (congrArg (·, s) h.permitted)).trans ?_
  refine (Act.runOn_bind_of (congrArg (·, s) h.keyed)).trans ?_
  refine (Act.runOn_bind_of h.hooked).trans ?_
  rw [if_neg (by rw [h.continued]; exact Bool.false_ne_true)]
  refine (Act.runOn_bind_of (congrArg (·, reached) h.told)).trans ?_
  have hgiven := h.given
  dsimp only at hgiven
  subst hgiven
  rfl

end Engine

end RecordGraph
