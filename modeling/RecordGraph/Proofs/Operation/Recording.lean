import RecordGraph.Operation.Engine
import RecordGraph.Proofs.Hook.Spots
import RecordGraph.Proofs.Operation.Running

/-!
# Recorded storages

A storage that keeps a record of what it was asked. The record is no part of the state that hooks
and transactions work on: it stays when the work fails and is undone. What an effect asks is told by
the calls that it adds to the record, and by how it ends.
-/

namespace RecordGraph

/-- What a storage is asked. -/
inductive Call where
  | transaction (limit : Value)
  | findMany (entity : String) (plan : Plan)
  | findUnique (entity : String) (plan : Plan)
  | count (entity : String) (filter : Object)
  | create (entity : String) (data : Object) (plan : Option Plan)
  | update (entity : String) (condition changes : Object) (plan : Option Plan)
  | upsert (entity : String) (condition data changes : Object) (plan : Option Plan)
  | delete (entity : String) (condition : Object) (plan : Option Plan)
  | createMany (entity : String) (rows : List Object)

/-- A state with the calls so far. -/
structure Recorded (σ : Type) where
  state : σ
  calls : List Call := []

namespace Act

variable {σ α β : Type}

/-- The effect on the state, with nothing recorded. -/
def silent (act : Act σ α) : Act (Recorded σ) α := ExceptT.mk fun r =>
  ((act.runOn r.state).1, { r with state := (act.runOn r.state).2 })

/-- The effect of a call, which is recorded. -/
def noted (call : Call) (act : Act σ α) : Act (Recorded σ) α := ExceptT.mk fun r =>
  ((act.runOn r.state).1, ⟨(act.runOn r.state).2, r.calls ++ [call]⟩)

end Act

/-- The reads and writes of a storage, recorded. -/
def Access.recorded {σ : Type} (a : Access σ) : Access (Recorded σ) where
  findMany entity plan := (a.findMany entity plan).noted (.findMany entity plan)
  findUnique entity plan := (a.findUnique entity plan).noted (.findUnique entity plan)
  count entity filter := (a.count entity filter).noted (.count entity filter)
  create entity data plan := (a.create entity data plan).noted (.create entity data plan)
  update entity condition changes plan :=
    (a.update entity condition changes plan).noted (.update entity condition changes plan)
  upsert entity condition data changes plan :=
    (a.upsert entity condition data changes plan).noted (.upsert entity condition data changes plan)
  delete entity condition plan := (a.delete entity condition plan).noted (.delete entity condition plan)
  createMany entity rows := (a.createMany entity rows).noted (.createMany entity rows)

/-- A storage by its parts: what it does on its own, inside a transaction, and when a transaction is
opened and is closed after work that succeeded or failed. -/
structure Backend (σ : Type) where
  access : Access σ
  within : Access σ
  opening : Value → Act σ Unit
  closing : Bool → Act σ Unit

namespace Backend

variable {σ : Type} (b : Backend σ)

/-- The storage of a backend, recorded. -/
def recorded : Storage (Recorded σ) :=
  { b.access.recorded with
    inTransaction := fun limit work => do
      (b.opening limit).noted (.transaction limit)
      let outcome ← (work b.within.recorded).attempt
      (b.closing outcome.isOk).silent
      Act.ofExcept outcome }

end Backend

/-- A hook works on the state alone. -/
def Handler.silent {σ : Type} (h : Handler σ) : Handler (Recorded σ) := .leaving h.name fun c => (h.run c).silent

def Registry.silent {σ : Type} (r : Registry σ) : Registry (Recorded σ) := r.map fun _ => .silent

namespace Engine

variable {σ : Type}

/-- An engine whose storage is recorded. -/
def recorded (b : Backend σ) (schema : Schema) (rules : Rules) (hooks : Registry σ) (settings : Settings) :
    Engine (Recorded σ) :=
  { schema, storage := b.recorded, rules, hooks := hooks.silent, settings }

end Engine

/-! ## What effects ask -/

namespace Act

variable {σ α β : Type}

/-- What holds of the calls that an effect adds to any record, and of how it then ends. -/
def Asks (act : Act (Recorded σ) α) (Q : List Call → Except Failure α → Prop) : Prop :=
  ∀ start, ∃ calls, (act.runOn start).2.calls = start.calls ++ calls ∧ Q calls (act.runOn start).1

variable {act : Act (Recorded σ) α} {f : α → Act (Recorded σ) β}
  {P P' : List Call → Except Failure α → Prop} {Q : List Call → Except Failure β → Prop}

theorem Asks.mono (h : act.Asks P) (himp : ∀ calls out, P calls out → P' calls out) : act.Asks P' :=
  Logs.mono h himp

theorem asks_ofExcept {outcome : Except Failure α} (h : P [] outcome) :
    (ofExcept outcome : Act (Recorded σ) α).Asks P :=
  logs_ofExcept h

theorem asks_pure {a : α} (h : P [] (.ok a)) : (pure a : Act (Recorded σ) α).Asks P :=
  logs_pure h

/-- A silent effect asks nothing and ends as it does on its own. -/
theorem asks_silent {act : Act σ α} (h : ∀ s, P [] (act.runOn s).1) : act.silent.Asks P :=
  fun start => ⟨[], (List.append_nil _).symm, h start.state⟩

theorem asks_noted {act : Act σ α} {call : Call} (h : ∀ s, P [call] (act.runOn s).1) :
    (act.noted call).Asks P :=
  fun start => ⟨[call], rfl, h start.state⟩

theorem Asks.bind (h : act.Asks P) (hfail : ∀ calls failure, P calls (.error failure) → Q calls (.error failure))
    (hok : ∀ calls a, P calls (.ok a) → (f a).Asks fun more out => Q (calls ++ more) out) :
    (act >>= f).Asks Q :=
  Logs.bind h hfail hok

theorem Asks.bind_quiet {R : α → Prop} (h : act.Asks fun calls out => calls = [] ∧ ∀ a, out = .ok a → R a)
    (hfail : ∀ failure, Q [] (.error failure)) (hok : ∀ a, R a → (f a).Asks Q) : (act >>= f).Asks Q :=
  Logs.bind_quiet h hfail hok

theorem asks_ofExcept_bind {outcome : Except Failure α} (hfail : ∀ failure, Q [] (.error failure))
    (hok : ∀ a, outcome = .ok a → (f a).Asks Q) : (ofExcept outcome >>= f).Asks Q :=
  logs_ofExcept_bind hfail hok

theorem Asks.tryCatch {handle : Failure → Act (Recorded σ) α} (h : act.Asks P)
    (hok : ∀ calls a, P calls (.ok a) → P' calls (.ok a))
    (hfail : ∀ calls failure, P calls (.error failure) →
      (handle failure).Asks fun more out => P' (calls ++ more) out) :
    (tryCatch act handle).Asks P' :=
  Logs.tryCatch h hok hfail

theorem Asks.attempt (h : act.Asks P) : act.attempt.Asks fun calls out => ∃ o, out = .ok o ∧ P calls o :=
  Logs.attempt h

end Act

/-! ## Hooks and the border -/

namespace Registry

variable {σ : Type} {r : Registry σ} {stage operation entity : String}

/-- No hook of a chain ends an operation. -/
def Continues (r : Registry σ) (stage operation entity : String) : Prop :=
  ∀ h ∈ r.handlers stage operation entity, ∀ c s c', ((h.run c).runOn s).1 = .ok c' →
    c'.abort.isPresent = false

/-- A chain asks nothing, and goes on as long as no hook ends it. -/
theorem asks_runChain (hs : List (Handler σ)) (c : HookContext) :
    (runChain (hs.map .silent) c).Asks fun calls out =>
      calls = [] ∧ ∀ c', out = .ok c' → c.abort.isPresent = false →
        (∀ h ∈ hs, ∀ c s c', ((h.run c).runOn s).1 = .ok c' → c'.abort.isPresent = false) →
        c'.abort.isPresent = false := by
  induction hs generalizing c with
  | nil => exact Act.asks_pure ⟨rfl, fun c' he ha _ => by cases he; exact ha⟩
  | cons h hs ih =>
      simp only [List.map_cons, runChain, Handler.silent, Handler.run_leaving]
      have hstep : (h.run c).silent.Asks fun calls out => calls = [] ∧ ∀ c', out = .ok c' →
          ∃ s, ((h.run c).runOn s).1 = .ok c' :=
        Act.asks_silent fun s => ⟨rfl, fun c' he => ⟨s, he⟩⟩
      refine hstep.bind_quiet (fun _ => ⟨rfl, fun _ he => by cases he⟩) fun c₁ hrun => ?_
      obtain ⟨s, hrun⟩ := hrun
      split
      · refine Act.asks_pure ⟨rfl, fun c' he _ hno => ?_⟩
        cases he
        exact hno h (by simp) c s _ hrun
      · refine (ih c₁).mono fun calls out ⟨hc, hout⟩ => ⟨hc, fun c' he _ hno => ?_⟩
        exact hout c' he (hno h (by simp) c s c₁ hrun) fun g hg => hno g (by simp [hg])

/-- The chain of a context that has not ended. -/
theorem asks_execute {c : HookContext} (he : c.entity = entity) (ha : c.abort.isPresent = false) :
    (r.silent.execute stage operation c).Asks fun calls out => calls = [] ∧ ∀ c', out = .ok c' →
      r.Continues stage operation entity → c'.abort.isPresent = false := by
  unfold execute silent
  rw [handlers_map, he]
  exact (asks_runChain _ c).mono fun calls out ⟨hc, hout⟩ => ⟨hc, fun c' h hno => hout c' h ha hno⟩

end Registry

namespace Engine

variable {σ α : Type}

/-- The border to the storage changes how a failure is told, and nothing else. -/
theorem asks_ask {e : Engine (Recorded σ)} {payload : Object} {act : Act (Recorded σ) α}
    {P : List Call → Except Failure α → Prop} (h : act.Asks P)
    (hfail : ∀ calls failure other, P calls (.error failure) → P calls (.error other)) :
    (e.ask payload act).Asks P := by
  refine h.tryCatch (fun _ _ hp => hp) fun calls failure hp => ?_
  cases failure <;> exact Act.asks_ofExcept (by rw [List.append_nil]; exact hfail _ _ _ hp)

end Engine

/-- A transaction asks what the work inside it asks, whether it is kept or not. -/
theorem Backend.asks_inTransaction {σ α : Type} {b : Backend σ} {limit : Value}
    {work : Access (Recorded σ) → Act (Recorded σ) α} {P Q : List Call → Except Failure α → Prop}
    (h : (work b.within.recorded).Asks P) (hopen : ∀ failure, Q [.transaction limit] (.error failure))
    (hfail : ∀ calls out failure, P calls out → Q (.transaction limit :: calls) (.error failure))
    (hok : ∀ calls out, P calls out → Q (.transaction limit :: calls) out) :
    (b.recorded.inTransaction limit work).Asks Q := by
  have hopening : ((b.opening limit).noted (.transaction limit)).Asks fun calls _ =>
      calls = [.transaction limit] := Act.asks_noted fun _ => rfl
  refine hopening.bind (fun _ failure hc => hc ▸ hopen failure) fun _ _ hc => ?_
  subst hc
  refine h.attempt.bind (fun calls failure hp => ?_) fun calls outcome hp => ?_
  · obtain ⟨out, he, _⟩ := hp
    cases he
  · obtain ⟨out, he, hp⟩ := hp
    cases he
    have hclosing : (b.closing outcome.isOk).silent.Asks fun calls _ => calls = [] :=
      Act.asks_silent fun _ => rfl
    refine hclosing.bind (fun _ failure hc => ?_) fun _ _ hc => Act.asks_ofExcept ?_
    · simpa [hc] using hfail _ _ failure hp
    · simpa [hc] using hok _ _ hp

end RecordGraph
