import RecordGraph.Operation.BatchUpsert
import RecordGraph.Operation.Read
import RecordGraph.Proofs.Operation.Chains
import RecordGraph.Proofs.Operation.Getting
import RecordGraph.Proofs.Operation.Recording
import RecordGraph.Proofs.Operation.Stages

/-!
# Traced operations

What happens during an operation is traced: the hooks that run, the calls of the storage with their answers, and
the ends of transactions. An operation ends traced as it ends on its own.
-/

namespace RecordGraph

/-! ## Traces -/

def Call.isWrite : Call → Bool
  | .create .. | .update .. | .upsert .. | .delete .. | .createMany .. => true
  | .transaction _ | .findMany .. | .findUnique .. | .count .. => false

inductive Event where
  /-- A hook of a stage runs, with the context that it leaves. -/
  | hooked (stage : String) (outcome : Except Failure HookContext)
  /-- The storage is called, and answers with a row or without one. -/
  | called (call : Call) (answer : Except Failure Bool)
  | closed (outcome : Except Failure Unit)

namespace Event

def failure? : Event → Option Failure
  | hooked _ (.error failure) | called _ (.error failure) | closed (.error failure) => some failure
  | hooked _ (.ok _) | called _ (.ok _) | closed (.ok _) => none

def isWrite : Event → Bool
  | called call _ => call.isWrite
  | hooked .. | closed _ => false

def isEarly : Event → Bool
  | hooked stage _ => stage == "before"
  | called .. | closed _ => false

def aborts : Event → Bool
  | hooked stage (.ok c) => stage == "before" && c.abort.isPresent
  | hooked _ (.error _) | called .. | closed _ => false

theorem isEarly_of_aborts {event : Event} (h : event.aborts = true) : event.isEarly = true := by
  cases event with
  | hooked stage outcome =>
      cases outcome with
      | error failure => cases h
      | ok c => exact (Bool.and_eq_true_iff.mp h).1
  | called _ _ | closed _ => cases h

end Event

/-- A state with what happened so far. -/
structure Traced (σ : Type) where
  state : σ
  events : List Event := []

section Tracing

variable {σ α : Type}

/-- An effect on the state that is told by an event. -/
def Act.traced (event : Except Failure α → Event) (act : Act σ α) : Act (Traced σ) α := ExceptT.mk fun t =>
  ((act.runOn t.state).1, ⟨(act.runOn t.state).2, t.events ++ [event (act.runOn t.state).1]⟩)

def Access.traced (a : Access σ) : Access (Traced σ) where
  findMany entity plan := (a.findMany entity plan).traced fun out =>
    .called (.findMany entity plan) (out.map fun records => !records.isEmpty)
  findUnique entity plan := (a.findUnique entity plan).traced fun out =>
    .called (.findUnique entity plan) (out.map Option.isSome)
  count entity filter := (a.count entity filter).traced fun out => .called (.count entity filter) (out.map (· != 0))
  create entity data plan := (a.create entity data plan).traced fun out =>
    .called (.create entity data plan) (out.map fun _ => true)
  update entity condition changes plan := (a.update entity condition changes plan).traced fun out =>
    .called (.update entity condition changes plan) (out.map Option.isSome)
  upsert entity condition data changes plan := (a.upsert entity condition data changes plan).traced fun out =>
    .called (.upsert entity condition data changes plan) (out.map fun _ => true)
  delete entity condition plan := (a.delete entity condition plan).traced fun out =>
    .called (.delete entity condition plan) (out.map Option.isSome)
  createMany entity rows := (a.createMany entity rows).traced fun out =>
    .called (.createMany entity rows) (out.map (· != 0))

def Backend.storage (b : Backend σ) : Storage σ :=
  { b.access with
    inTransaction := fun limit work => do
      b.opening limit
      let outcome ← (work b.within).attempt
      b.closing outcome.isOk
      Act.ofExcept outcome }

def Backend.traced (b : Backend σ) : Storage (Traced σ) :=
  { b.access.traced with
    inTransaction := fun limit work => do
      (b.opening limit).traced fun out => .called (.transaction limit) (out.map fun _ => true)
      let outcome ← (work b.within.traced).attempt
      (b.closing outcome.isOk).traced .closed
      Act.ofExcept outcome }

def Handler.traced (stage : String) (h : Handler σ) : Handler (Traced σ) :=
  .leaving h.name fun c => (h.run c).traced (.hooked stage)

def Registry.traced (r : Registry σ) : Registry (Traced σ) := r.map .traced

def Engine.untraced (b : Backend σ) (schema : Schema) (rules : Rules) (hooks : Registry σ) (settings : Settings) :
    Engine σ :=
  { schema, storage := b.storage, rules, hooks, settings }

def Engine.traced (b : Backend σ) (schema : Schema) (rules : Rules) (hooks : Registry σ) (settings : Settings) :
    Engine (Traced σ) :=
  { schema, storage := b.traced, rules, hooks := hooks.traced, settings }

end Tracing

/-! ## Operations -/

namespace Engine

inductive Operation where
  | getMany (r : ListRequest)
  | get (r : GetRequest)
  | count (query : Value)
  | create (data : Value)
  | write (w : Write)
  | upsertMany (r : BatchRequest)

section Run

variable {σ : Type} (e : Engine σ) (entity : String) (user : User)

def operate : Operation → Act σ Outcome
  | .getMany r => e.getMany entity user r
  | .get r => e.get entity user r
  | .count query => e.count entity user query
  | .create data => e.create entity user data
  | .write w => e.write entity user w
  | .upsertMany r => e.upsertMany entity user r

end Run

end Engine

section Mirroring

variable {σ α β : Type}

/-- A traced effect ends as another one does, and leaves the same state. -/
def Act.Mirrors (x : Act (Traced σ) α) (y : Act σ α) : Prop :=
  ∀ t, (x.runOn t).1 = (y.runOn t.state).1 ∧ (x.runOn t).2.state = (y.runOn t.state).2

namespace Act

variable {x : Act (Traced σ) α} {y : Act σ α} {f : α → Act (Traced σ) β} {g : α → Act σ β}

theorem mirrors_traced {event : Except Failure α → Event} : (y.traced event).Mirrors y :=
  fun _ => ⟨rfl, rfl⟩

theorem mirrors_ofExcept {outcome : Except Failure α} : (ofExcept outcome : Act (Traced σ) α).Mirrors (ofExcept outcome) :=
  fun _ => ⟨rfl, rfl⟩

theorem mirrors_pure {a : α} : (pure a : Act (Traced σ) α).Mirrors (pure a) :=
  fun _ => ⟨rfl, rfl⟩

theorem Mirrors.bind (h : x.Mirrors y) (hf : ∀ a, (f a).Mirrors (g a)) : (x >>= f).Mirrors (y >>= g) := by
  intro t
  obtain ⟨hout, hstate⟩ := h t
  rw [runOn_bind, runOn_bind]
  rcases hx : x.runOn t with ⟨_ | a, t'⟩ <;> rcases hy : y.runOn t.state with ⟨_ | b, s⟩ <;>
    rw [hx, hy] at hout <;> rw [hx, hy] at hstate <;> cases hout <;> cases hstate
  · exact ⟨rfl, rfl⟩
  · exact hf a t'

theorem Mirrors.attempt (h : x.Mirrors y) : x.attempt.Mirrors y.attempt := by
  intro t
  exact ⟨congrArg Except.ok (h t).1, (h t).2⟩

theorem Mirrors.tryCatch {hx : Failure → Act (Traced σ) α} {hy : Failure → Act σ α} (h : x.Mirrors y)
    (hhandle : ∀ failure, (hx failure).Mirrors (hy failure)) : (tryCatch x hx).Mirrors (tryCatch y hy) := by
  intro t
  obtain ⟨hout, hstate⟩ := h t
  rw [runOn_tryCatch, runOn_tryCatch]
  rcases hx : x.runOn t with ⟨failure | a, t'⟩ <;> rcases hy : y.runOn t.state with ⟨_ | b, s⟩ <;>
    rw [hx, hy] at hout <;> rw [hx, hy] at hstate <;> cases hout <;> cases hstate
  · exact hhandle failure t'
  · exact ⟨rfl, rfl⟩

theorem Mirrors.mapM {items : List α} (hf : ∀ a, (f a).Mirrors (g a)) : (items.mapM f).Mirrors (items.mapM g) := by
  induction items with
  | nil => exact mirrors_pure
  | cons a items ih =>
      rw [List.mapM_cons, List.mapM_cons]
      apply (hf a).bind
      intro b
      apply ih.bind
      intro bs
      exact mirrors_pure

theorem Mirrors.foldlM {items : List β} {step : α → β → Act (Traced σ) α} {step' : α → β → Act σ α} {start : α}
    (hstep : ∀ a b, (step a b).Mirrors (step' a b)) : (items.foldlM step start).Mirrors (items.foldlM step' start) := by
  induction items generalizing start with
  | nil => exact mirrors_pure
  | cons b items ih =>
      rw [List.foldlM_cons, List.foldlM_cons]
      apply (hstep start b).bind
      intro a
      exact ih

end Act

end Mirroring

/-! ## Tracing changes nothing -/

section Hooks

variable {σ : Type} {r : Registry σ} {stage operation entity : String} {c : HookContext}

theorem Registry.runChain_mirrors {hs : List (Handler σ)} :
    (runChain (hs.map (.traced stage)) c).Mirrors (runChain hs c) := by
  induction hs generalizing c with
  | nil => exact Act.mirrors_pure
  | cons h hs ih =>
      rw [List.map_cons, runChain, Handler.traced, Handler.run_leaving]
      apply Act.mirrors_traced.bind
      intro c'
      split
      · exact Act.mirrors_pure
      · exact ih

theorem Registry.execute_mirrors : (r.traced.execute stage operation c).Mirrors (r.execute stage operation c) := by
  unfold execute traced
  rw [handlers_map]
  exact runChain_mirrors

end Hooks

namespace Engine

section Fidelity

variable {σ α : Type} {b : Backend σ} {schema : Schema} {rules : Rules} {hooks : Registry σ} {settings : Settings}
  {entity operation : String} {user : User} {context : HookContext → HookContext} {payload : Object}

theorem ask_mirrors {x : Act (Traced σ) α} {y : Act σ α} (h : x.Mirrors y) :
    ((traced b schema rules hooks settings).ask payload x).Mirrors ((untraced b schema rules hooks settings).ask payload y) := by
  apply h.tryCatch
  intro failure
  split <;> exact Act.mirrors_ofExcept

variable {a : Access σ} {plan : Plan} {shape : Option Plan} {filter condition data changes : Object} {rows : List Object}

theorem findMany_mirrors : (a.traced.findMany entity plan).Mirrors (a.findMany entity plan) := Act.mirrors_traced

theorem findUnique_mirrors : (a.traced.findUnique entity plan).Mirrors (a.findUnique entity plan) := Act.mirrors_traced

theorem count_rows_mirrors : (a.traced.count entity filter).Mirrors (a.count entity filter) := Act.mirrors_traced

theorem create_row_mirrors : (a.traced.create entity data shape).Mirrors (a.create entity data shape) :=
  Act.mirrors_traced

theorem update_row_mirrors :
    (a.traced.update entity condition changes shape).Mirrors (a.update entity condition changes shape) :=
  Act.mirrors_traced

theorem upsert_row_mirrors :
    (a.traced.upsert entity condition data changes shape).Mirrors (a.upsert entity condition data changes shape) :=
  Act.mirrors_traced

theorem delete_row_mirrors : (a.traced.delete entity condition shape).Mirrors (a.delete entity condition shape) :=
  Act.mirrors_traced

theorem createMany_mirrors : (a.traced.createMany entity rows).Mirrors (a.createMany entity rows) := Act.mirrors_traced

theorem inTransaction_mirrors {limit : Value} {work : Access (Traced σ) → Act (Traced σ) α} {plain : Access σ → Act σ α}
    (h : (work b.within.traced).Mirrors (plain b.within)) :
    (b.traced.inTransaction limit work).Mirrors (b.storage.inTransaction limit plain) := by
  apply Act.mirrors_traced.bind
  intro _
  apply h.attempt.bind
  intro outcome
  apply Act.mirrors_traced.bind
  intro _
  exact Act.mirrors_ofExcept

theorem runHooks_mirrors {stage : String} :
    ((traced b schema rules hooks settings).runHooks stage operation entity user context).Mirrors
      ((untraced b schema rules hooks settings).runHooks stage operation entity user context) :=
  Registry.execute_mirrors

theorem getMany_mirrors {request : ListRequest} :
    ((traced b schema rules hooks settings).getMany entity user request).Mirrors
      ((untraced b schema rules hooks settings).getMany entity user request) := by
  unfold getMany
  apply Act.mirrors_ofExcept.bind
  intro take
  apply Act.mirrors_ofExcept.bind
  intro path
  apply Act.mirrors_ofExcept.bind
  intro options
  apply runHooks_mirrors.bind
  intro before
  split
  · exact Act.mirrors_pure
  apply Act.mirrors_ofExcept.bind
  intro plan
  have hpage {tx : Access σ} : (do
      let records ← tx.traced.findMany entity plan
      let total ← tx.traced.count entity plan.filter
      return (records, total) : Act (Traced σ) (List Value × Int)).Mirrors (do
      let records ← tx.findMany entity plan
      let total ← tx.count entity plan.filter
      return (records, total)) := by
    apply findMany_mirrors.bind
    intro records
    apply count_rows_mirrors.bind
    intro total
    exact Act.mirrors_pure
  apply (ask_mirrors (inTransaction_mirrors hpage)).bind
  intro answer
  apply runHooks_mirrors.bind
  intro after
  exact Act.mirrors_pure

theorem get_mirrors {request : GetRequest} :
    ((traced b schema rules hooks settings).get entity user request).Mirrors
      ((untraced b schema rules hooks settings).get entity user request) := by
  rw [get_eq, get_eq]
  apply Act.mirrors_ofExcept.bind
  intro options
  apply runHooks_mirrors.bind
  intro before
  split
  · exact Act.mirrors_pure
  apply Act.mirrors_ofExcept.bind
  intro p
  have hlookUp : ((traced b schema rules hooks settings).lookUp entity p).Mirrors
      ((untraced b schema rules hooks settings).lookUp entity p) := by
    unfold lookUp
    apply findUnique_mirrors.attempt.bind
    intro found
    apply findUnique_mirrors.attempt.bind
    intro permitted
    apply Act.mirrors_ofExcept.bind
    intro record
    apply Act.mirrors_ofExcept.bind
    intro key
    exact Act.mirrors_pure
  apply (ask_mirrors hlookUp).bind
  intro lookups
  apply Act.mirrors_ofExcept.bind
  intro result
  apply runHooks_mirrors.bind
  intro after
  exact Act.mirrors_pure

theorem count_mirrors {query : Value} :
    ((traced b schema rules hooks settings).count entity user query).Mirrors
      ((untraced b schema rules hooks settings).count entity user query) := by
  unfold count
  apply runHooks_mirrors.bind
  intro before
  split
  · exact Act.mirrors_pure
  apply Act.mirrors_ofExcept.bind
  intro filter
  apply (ask_mirrors count_rows_mirrors).bind
  intro total
  apply runHooks_mirrors.bind
  intro after
  split <;> exact Act.mirrors_pure

theorem create_mirrors {data : Value} :
    ((traced b schema rules hooks settings).create entity user data).Mirrors
      ((untraced b schema rules hooks settings).create entity user data) := by
  unfold create
  apply Act.mirrors_ofExcept.bind
  intro _
  apply Act.mirrors_ofExcept.bind
  intro data
  apply runHooks_mirrors.bind
  intro before
  split
  · exact Act.mirrors_pure
  apply Act.mirrors_ofExcept.bind
  intro payload
  apply Act.mirrors_ofExcept.bind
  intro body
  apply Act.mirrors_ofExcept.bind
  intro plan
  apply (ask_mirrors create_row_mirrors).bind
  intro record
  apply runHooks_mirrors.bind
  intro after
  exact Act.mirrors_pure

theorem required_mirrors {record : Option Object} :
    (required entity record : Act (Traced σ) Object).Mirrors (required entity record) := by
  cases record with
  | none => exact Act.mirrors_ofExcept
  | some record => exact Act.mirrors_pure

theorem write_mirrors {w : Write} :
    ((traced b schema rules hooks settings).write entity user w).Mirrors
      ((untraced b schema rules hooks settings).write entity user w) := by
  rw [write_eq, write_eq]
  apply Act.mirrors_ofExcept.bind
  intro start
  apply runHooks_mirrors.bind
  intro before
  split
  · exact Act.mirrors_pure
  apply Act.mirrors_ofExcept.bind
  intro p
  refine Act.Mirrors.bind ?_ fun record => ?_
  · unfold perform
    split
    · apply (ask_mirrors update_row_mirrors).bind
      intro record
      exact required_mirrors
    · exact ask_mirrors upsert_row_mirrors
    · apply (ask_mirrors delete_row_mirrors).bind
      intro record
      exact required_mirrors
  · apply runHooks_mirrors.bind
    intro after
    exact Act.mirrors_pure

theorem collect_mirrors {x : Act (Traced σ) α} {y : Act σ α} {batch : Batch} {record : Option Object}
    {records : Option (List Object)} {count : α → Batch} (h : x.Mirrors y) :
    ((traced b schema rules hooks settings).collect batch record records x count).Mirrors
      ((untraced b schema rules hooks settings).collect batch record records y count) := by
  unfold collect
  rw [map_eq_pure_bind, map_eq_pure_bind]
  apply (h.bind fun _ => Act.mirrors_pure).tryCatch
  intro failure
  split
  · exact Act.mirrors_pure
  · exact Act.mirrors_ofExcept

theorem upsertRows_mirrors {a : Access σ} {permission : Object} {key : Key.UniqueKey} {followRelations : Bool}
    {rows : List Value} :
    ((traced b schema rules hooks settings).upsertRows a.traced entity user permission key followRelations rows).Mirrors
      ((untraced b schema rules hooks settings).upsertRows a entity user permission key followRelations rows) := by
  have hexisting {rows : List Object} : (existingKeys a.traced entity key rows).Mirrors (existingKeys a entity key rows) := by
    unfold existingKeys
    dsimp only
    split
    · exact Act.mirrors_pure
    · apply findMany_mirrors.bind
      intro found
      apply Act.Mirrors.mapM
      intro record
      split
      · exact Act.mirrors_pure
      · exact Act.mirrors_ofExcept
  unfold upsertRows
  apply Act.mirrors_ofExcept.bind
  intro rows
  apply hexisting.bind
  intro existing
  apply Act.mirrors_ofExcept.bind
  intro sorted
  refine Act.Mirrors.bind ?_ fun batch => ?_
  · unfold createRows
    split
    · exact Act.mirrors_pure
    · split
      · exact Act.Mirrors.foldlM fun batch body => collect_mirrors create_row_mirrors
      · exact collect_mirrors createMany_mirrors
  · apply (Act.Mirrors.foldlM fun batch update => collect_mirrors update_row_mirrors).bind
    intro batch
    exact Act.mirrors_pure

theorem upsertMany_mirrors {request : BatchRequest} :
    ((traced b schema rules hooks settings).upsertMany entity user request).Mirrors
      ((untraced b schema rules hooks settings).upsertMany entity user request) := by
  unfold upsertMany
  split
  · exact Act.mirrors_pure
  apply Act.mirrors_ofExcept.bind
  intro permission
  apply Act.mirrors_ofExcept.bind
  intro asked
  apply runHooks_mirrors.bind
  intro before
  split
  · exact Act.mirrors_pure
  apply Act.mirrors_ofExcept.bind
  intro key
  refine Act.Mirrors.bind (ask_mirrors ?_) fun batch => ?_
  · split
    · exact inTransaction_mirrors upsertRows_mirrors
    · exact upsertRows_mirrors
  · apply runHooks_mirrors.bind
    intro after
    exact Act.mirrors_pure

/-- An operation ends traced as it ends on its own. -/
theorem operate_mirrors (op : Operation) : ((traced b schema rules hooks settings).operate entity user op).Mirrors
    ((untraced b schema rules hooks settings).operate entity user op) := by
  cases op with
  | getMany request => exact getMany_mirrors
  | get request => exact get_mirrors
  | count query => exact count_mirrors
  | create data => exact create_mirrors
  | write w => exact write_mirrors
  | upsertMany request => exact upsertMany_mirrors

end Fidelity

/-- What happens during an operation from a state. -/
def trace {σ : Type} (b : Backend σ) (schema : Schema) (rules : Rules) (hooks : Registry σ) (settings : Settings)
    (entity : String) (user : User) (op : Operation) (s : σ) : List Event :=
  (((traced b schema rules hooks settings).operate entity user op).runOn ⟨s, []⟩).2.events

end Engine

end RecordGraph
