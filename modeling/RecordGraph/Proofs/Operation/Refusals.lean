import RecordGraph.Proofs.Failure.Refusal
import RecordGraph.Proofs.Operation.Tracing

/-!
# Refusals come before writes

An operation that refuses a request by itself has written nothing, and one that a hook ends has not asked the storage
at all. Both are read off the trace of the operation, part by part.
-/

namespace RecordGraph

/-! ## Refusals -/

/-- No hook and no call of the storage failed so. -/
def Unprompted (events : List Event) (failure : Failure) : Prop := ∀ event ∈ events, event.failure? ≠ some failure

def Unwritten (events : List Event) : Prop := ∀ event ∈ events, event.isWrite = false

/-- The one write that was made found no row, and that is what the failure says. -/
def Missed (entity : String) (events : List Event) (failure : Failure) : Prop :=
  failure = .access "no_permission" entity ∧ ∃ reads call, events = reads ++ [.called call (.ok false)] ∧
    call.isWrite = true ∧ Unwritten reads

/-- A refusal of the operation itself leaves nothing written, or says that a write found no row. -/
def Orderly {α : Type} (entity : String) (misses : Prop) (events : List Event) (out : Except Failure α) : Prop :=
  ∀ failure, out = .error failure → failure.isRefusal = true → Unprompted events failure →
    Unwritten events ∨ misses ∧ Missed entity events failure

/-- If a hook before the work ends an operation, hooks before the work are all that happens; refusals are orderly. -/
structure Settled (entity : String) (misses : Prop) (events : List Event) (out : Except Failure Outcome) : Prop where
  aborted : (∃ event ∈ events, event.aborts = true) → ∀ event ∈ events, event.isEarly = true
  orderly : Orderly entity misses events out

/-! ## Parts of an operation -/

/-- Only reads and later hooks. -/
def Reading {α : Type} (events : List Event) (_ : Except Failure α) : Prop :=
  ∀ event ∈ events, event.isWrite = false ∧ event.isEarly = false

/-- Work that refuses nothing by itself. -/
structure Prompted {α : Type} (events : List Event) (out : Except Failure α) : Prop where
  late : ∀ event ∈ events, event.isEarly = false
  told : ∀ failure, out = .error failure → failure.isRefusal = true → ¬ Unprompted events failure

structure Late {α : Type} (entity : String) (misses : Prop) (events : List Event) (out : Except Failure α) : Prop where
  late : ∀ event ∈ events, event.isEarly = false
  orderly : Orderly entity misses events out

section Parts

variable {σ α β : Type} {entity : String} {misses : Prop} {events more : List Event} {out : Except Failure α}
  {act : Act (Traced σ) α} {f : α → Act (Traced σ) β} {failure : Failure}

theorem not_unprompted_append_right (h : ¬ Unprompted more failure) : ¬ Unprompted (events ++ more) failure := by
  intro hall
  exact h fun event hin => hall event (List.mem_append_right _ hin)

theorem Reading.unwritten (h : Reading events out) : Unwritten events :=
  fun event hin => (h event hin).1

theorem Reading.late (h : Reading events out) : Late entity misses events out where
  late event hin := (h event hin).2
  orderly _ _ _ _ := .inl h.unwritten

theorem Prompted.orderly (h : Prompted events out) : Late entity misses events out where
  late := h.late
  orderly failure hout href hunprompted := absurd hunprompted (h.told failure hout href)

theorem Orderly.after (hread : Unwritten events) (h : Orderly entity misses more out) :
    Orderly entity misses (events ++ more) out := by
  intro failure hout href hunprompted
  have hmore : Unprompted more failure := fun event hin => hunprompted event (List.mem_append_right _ hin)
  have hboth {rest : List Event} (hrest : Unwritten rest) : Unwritten (events ++ rest) :=
    List.forall_mem_append.mpr ⟨hread, hrest⟩
  rcases h failure hout href hmore with hunwritten | ⟨hm, hsame, reads, call, rfl, hwrite, hreads⟩
  · exact .inl (hboth hunwritten)
  · exact .inr ⟨hm, hsame, events ++ reads, call, (List.append_assoc ..).symm, hwrite, hboth hreads⟩

theorem reading_bind (h : act.Logs Traced.events Reading) (hf : ∀ a, (f a).Logs Traced.events Reading) :
    (act >>= f).Logs Traced.events Reading := by
  apply h.bind
  · intro events failure hread
    exact hread
  · intro events a hread
    apply (hf a).mono
    intro more out hmore
    exact List.forall_mem_append.mpr ⟨hread, hmore⟩

theorem reading_ofExcept {outcome : Except Failure α} :
    (Act.ofExcept outcome : Act (Traced σ) α).Logs Traced.events Reading :=
  Act.logs_ofExcept (by simp [Reading])

theorem reading_pure {a : α} : (pure a : Act (Traced σ) α).Logs Traced.events Reading :=
  Act.logs_pure (by simp [Reading])

theorem reading_attempt (h : act.Logs Traced.events Reading) : act.attempt.Logs Traced.events Reading := by
  apply h.attempt.mono
  rintro events _ ⟨_, _, hread⟩
  exact hread

theorem reading_mapM {items : List α} (hf : ∀ a, (f a).Logs Traced.events Reading) :
    (items.mapM f).Logs Traced.events Reading := by
  induction items with
  | nil => exact reading_pure
  | cons a items ih =>
      rw [List.mapM_cons]
      apply reading_bind (hf a)
      intro b
      apply reading_bind ih
      intro bs
      exact reading_pure

theorem late_bind_reading (h : act.Logs Traced.events Reading)
    (hf : ∀ a, (f a).Logs Traced.events (Late entity misses)) : (act >>= f).Logs Traced.events (Late entity misses) := by
  apply h.bind
  · intro events failure hread
    exact ⟨fun event hin => (hread event hin).2, fun _ _ _ _ => .inl hread.unwritten⟩
  · intro events a hread
    apply (hf a).mono
    intro more out hlate
    constructor
    · exact List.forall_mem_append.mpr ⟨fun event hin => (hread event hin).2, hlate.late⟩
    · exact hlate.orderly.after hread.unwritten

/-- Work that refuses nothing by itself may follow, whatever was written. -/
theorem late_bind_prompted (h : act.Logs Traced.events (Late entity misses))
    (hf : ∀ a, (f a).Logs Traced.events Prompted) : (act >>= f).Logs Traced.events (Late entity misses) := by
  apply h.bind
  · intro events failure hlate
    exact ⟨hlate.late, fun failure' hout => hlate.orderly failure' (by cases hout; rfl)⟩
  · intro events a hlate
    apply (hf a).mono
    intro more out hprompted
    constructor
    · exact List.forall_mem_append.mpr ⟨hlate.late, hprompted.late⟩
    · intro failure hout href hunprompted
      exact absurd hunprompted (not_unprompted_append_right (hprompted.told failure hout href))

theorem prompted_bind (h : act.Logs Traced.events Prompted) (hf : ∀ a, (f a).Logs Traced.events Prompted) :
    (act >>= f).Logs Traced.events Prompted := by
  apply h.bind
  · intro events failure hprompted
    exact ⟨hprompted.late, fun failure' hout => hprompted.told failure' (by cases hout; rfl)⟩
  · intro events a hprompted
    apply (hf a).mono
    intro more out hmore
    constructor
    · exact List.forall_mem_append.mpr ⟨hprompted.late, hmore.late⟩
    · intro failure hout href
      exact not_unprompted_append_right (hmore.told failure hout href)

theorem prompted_pure {a : α} : (pure a : Act (Traced σ) α).Logs Traced.events Prompted :=
  Act.logs_pure ⟨by simp, fun _ hout => (nomatch hout)⟩

theorem prompted_foldlM {items : List β} {step : α → β → Act (Traced σ) α} {start : α}
    (hstep : ∀ a b, (step a b).Logs Traced.events Prompted) : (items.foldlM step start).Logs Traced.events Prompted := by
  induction items generalizing start with
  | nil => exact prompted_pure
  | cons b items ih =>
      rw [List.foldlM_cons]
      apply prompted_bind (hstep start b)
      intro a
      exact ih

theorem logs_traced {act : Act σ α} {event : Except Failure α → Event} :
    (act.traced event).Logs Traced.events fun events out => events = [event out] :=
  fun _ => ⟨_, rfl, rfl⟩

theorem reading_traced {act : Act σ α} {event : Except Failure α → Event}
    (h : ∀ out, (event out).isWrite = false ∧ (event out).isEarly = false) :
    (act.traced event).Logs Traced.events Reading := by
  apply logs_traced.mono
  rintro _ out rfl
  simpa [Reading] using h out

/-- What fails is told by its event. -/
theorem prompted_event {event : Event} (hlate : event.isEarly = false)
    (hfail : ∀ failure, out = .error failure → event.failure? = some failure) : Prompted [event] out where
  late := by simpa using hlate
  told failure hout _ hunprompted := hunprompted _ (List.mem_singleton.mpr rfl) (hfail failure hout)

theorem prompted_called {act : Act σ α} {call : Call} {found : α → Bool} :
    (act.traced fun out => .called call (out.map found)).Logs Traced.events Prompted := by
  apply logs_traced.mono
  rintro _ out rfl
  exact prompted_event rfl fun failure hout => by rw [hout]; rfl

end Parts

/-! ## Hooks -/

namespace Registry

variable {σ : Type} {r : Registry σ} {stage operation entity : String} {c : HookContext}

structure ChainTraced (stage : String) (events : List Event) (out : Except Failure HookContext) : Prop where
  hooks : ∀ event ∈ events, ∃ outcome, event = .hooked stage outcome
  told : ∀ failure, out = .error failure → ∃ event ∈ events, event.failure? = some failure
  continued : ∀ c, out = .ok c → c.abort.isPresent = false → ∀ event ∈ events, event.aborts = false

theorem runChain_traced {hs : List (Handler σ)} :
    (runChain (hs.map (.traced stage)) c).Logs Traced.events (ChainTraced stage) := by
  induction hs generalizing c with
  | nil =>
      apply Act.logs_pure
      refine ⟨by simp, fun failure hout => ?_, by simp⟩
      cases hout
  | cons h hs ih =>
      rw [List.map_cons, runChain, Handler.traced, Handler.run_leaving]
      apply logs_traced.bind
      · rintro events failure rfl
        refine ⟨by simp, fun failure' hout => ?_, fun c' hout => ?_⟩ <;> cases hout
        exact ⟨_, List.mem_cons_self, rfl⟩
      · rintro events c' rfl
        split
        · rename_i habort
          apply Act.logs_pure
          refine ⟨by simp, fun failure hout => ?_, fun c'' hout hno => ?_⟩ <;> cases hout
          rw [habort] at hno
          cases hno
        · rename_i hgoes
          apply ih.mono
          intro more out hchain
          constructor
          · simpa using hchain.hooks
          · intro failure hout
            obtain ⟨event, hin, htold⟩ := hchain.told failure hout
            exact ⟨event, List.mem_append_right _ hin, htold⟩
          · intro c'' hout hno
            refine List.forall_mem_append.mpr ⟨?_, hchain.continued c'' hout hno⟩
            simp [Event.aborts, hgoes]

theorem execute_traced : (r.traced.execute stage operation c).Logs Traced.events (ChainTraced stage) := by
  unfold execute traced
  rw [handlers_map]
  exact runChain_traced

theorem ChainTraced.unwritten {events : List Event} {out : Except Failure HookContext} (h : ChainTraced stage events out) :
    Unwritten events := by
  intro event hin
  obtain ⟨outcome, rfl⟩ := h.hooks event hin
  rfl

theorem ChainTraced.reading {events : List Event} {out : Except Failure HookContext} (h : ChainTraced "after" events out) :
    Reading events out := by
  intro event hin
  obtain ⟨outcome, rfl⟩ := h.hooks event hin
  exact ⟨rfl, rfl⟩

theorem ChainTraced.prompted {events : List Event} {out : Except Failure HookContext} (h : ChainTraced "after" events out) :
    Prompted events out where
  late event hin := (h.reading event hin).2
  told failure hout _ hunprompted := by
    obtain ⟨event, hin, htold⟩ := h.told failure hout
    exact hunprompted event hin htold

end Registry

/-! ## The storage -/

section Storage

variable {σ α : Type} {e : Engine (Traced σ)} {b : Backend σ} {entity : String} {misses : Prop} {payload : Object}
  {act : Act (Traced σ) α}

theorem answered_refusal {failure : Failure} (h : (e.answered payload failure).isRefusal = true) :
    e.answered payload failure = failure := by
  cases failure with
  | fault f =>
      exfalso
      revert h
      simp only [Engine.answered, Disclosure.requestError]
      cases f.label.code? <;> exact Bool.false_ne_true
  | request _ | engine _ | schema _ | hook _ | foreign _ | illFormed => rfl

theorem logs_ask {P : List Event → Except Failure α → Prop} (h : act.Logs Traced.events P)
    (hfail : ∀ events failure, P events (.error failure) → P events (.error (e.answered payload failure))) :
    (e.ask payload act).Logs Traced.events P := by
  intro start
  obtain ⟨events, hevents, hp⟩ := h start
  rw [Engine.ask_run]
  rcases hrun : act.runOn start with ⟨failure | a, next⟩ <;> rw [hrun] at hevents hp
  · exact ⟨events, hevents, hfail events failure hp⟩
  · exact ⟨events, hevents, hp⟩

theorem reading_ask (h : act.Logs Traced.events Reading) : (e.ask payload act).Logs Traced.events Reading :=
  logs_ask h fun _ _ hread => hread

theorem Prompted.answered {events : List Event} {failure : Failure} (h : Prompted events (.error failure : Except _ α)) :
    Prompted events (.error (e.answered payload failure) : Except _ α) := by
  refine ⟨h.late, fun failure' hout href => ?_⟩
  cases hout
  have hsame := answered_refusal href
  rw [hsame] at href ⊢
  exact h.told failure rfl href

theorem prompted_ask (h : act.Logs Traced.events Prompted) : (e.ask payload act).Logs Traced.events Prompted :=
  logs_ask h fun _ _ hprompted => hprompted.answered

theorem late_ask (h : act.Logs Traced.events (Late entity misses)) :
    (e.ask payload act).Logs Traced.events (Late entity misses) := by
  apply logs_ask h
  intro events failure hlate
  refine ⟨hlate.late, fun failure' hout href => ?_⟩
  cases hout
  have hsame := answered_refusal href
  rw [hsame] at href ⊢
  exact hlate.orderly failure rfl href

variable {a : Access σ} {plan : Plan} {shape : Option Plan} {filter condition data changes : Object} {rows : List Object}
  {limit : Value} {work : Access (Traced σ) → Act (Traced σ) α}

theorem reading_findMany : (a.traced.findMany entity plan).Logs Traced.events Reading :=
  reading_traced fun _ => ⟨rfl, rfl⟩

theorem reading_findUnique : (a.traced.findUnique entity plan).Logs Traced.events Reading :=
  reading_traced fun _ => ⟨rfl, rfl⟩

theorem reading_count : (a.traced.count entity filter).Logs Traced.events Reading :=
  reading_traced fun _ => ⟨rfl, rfl⟩

theorem prompted_create : (a.traced.create entity data shape).Logs Traced.events Prompted :=
  prompted_called

theorem prompted_update : (a.traced.update entity condition changes shape).Logs Traced.events Prompted :=
  prompted_called

theorem prompted_upsert : (a.traced.upsert entity condition data changes shape).Logs Traced.events Prompted :=
  prompted_called

theorem prompted_createMany : (a.traced.createMany entity rows).Logs Traced.events Prompted :=
  prompted_called

theorem reading_inTransaction (h : (work b.within.traced).Logs Traced.events Reading) :
    (b.traced.inTransaction limit work).Logs Traced.events Reading := by
  apply reading_bind (reading_traced fun _ => ⟨rfl, rfl⟩)
  intro _
  apply reading_bind (reading_attempt h)
  intro outcome
  apply reading_bind (reading_traced fun _ => ⟨rfl, rfl⟩)
  intro _
  exact reading_ofExcept

/-- A transaction refuses nothing by itself, and how it is closed is told. -/
theorem late_inTransaction (h : (work b.within.traced).Logs Traced.events (Late entity False)) :
    (b.traced.inTransaction limit work).Logs Traced.events (Late entity False) := by
  apply late_bind_reading (reading_traced fun _ => ⟨rfl, rfl⟩)
  intro _
  apply h.attempt.bind
  · rintro events failure ⟨_, hout, _⟩
    cases hout
  · rintro events outcome ⟨_, hout, hlate⟩
    cases hout
    apply logs_traced.bind
    · rintro _ failure rfl
      refine ⟨List.forall_mem_append.mpr ⟨hlate.late, by simp [Event.isEarly]⟩, fun failure' hout _ hunprompted => ?_⟩
      cases hout
      exact absurd rfl (hunprompted (.closed (.error failure)) (by simp))
    · rintro _ _ rfl
      apply Act.logs_ofExcept
      refine ⟨List.forall_mem_append.mpr ⟨hlate.late, by simp [Event.isEarly]⟩, fun failure hout href hunprompted => ?_⟩
      rcases hlate.orderly failure hout href (List.forall_mem_append.mp hunprompted).1 with hunwritten | ⟨hfalse, _⟩
      · exact .inl (List.forall_mem_append.mpr ⟨hunwritten, by simp [Event.isWrite]⟩)
      · exact hfalse.elim

end Storage

/-! ## Operations -/

namespace Engine

/-- A write of a row that has to be there. -/
def Operation.misses : Operation → Prop
  | write w => w.isUpsert = false
  | getMany _ | get _ | count _ | create _ | upsertMany _ => False

variable {σ α : Type} {b : Backend σ} {schema : Schema} {rules : Rules} {hooks : Registry σ} {settings : Settings}
  {entity operation : String} {user : User} {misses : Prop} {context : HookContext → HookContext}

theorem settled_failure (failure : Failure) : Settled entity misses [] (.error failure) where
  aborted := by simp
  orderly _ _ _ _ := .inl (by simp [Unwritten])

/-- The hooks before the work end an operation, or the work follows. -/
theorem settled_hooks {ended : HookContext → Outcome} {work : HookContext → Act (Traced σ) Outcome}
    (hwork : ∀ before, (work before).Logs Traced.events (Late entity misses)) :
    ((traced b schema rules hooks settings).runHooks "before" operation entity user context >>= fun before =>
      if before.abort.isPresent then pure (ended before) else work before).Logs Traced.events
        (Settled entity misses) := by
  apply Registry.execute_traced.bind
  · intro events failure hchain
    constructor
    · intro _ event hin
      obtain ⟨outcome, rfl⟩ := hchain.hooks event hin
      rfl
    · intro _ _ _ _
      exact .inl hchain.unwritten
  · intro events before hchain
    split
    · apply Act.logs_pure
      rw [List.append_nil]
      refine ⟨fun _ event hin => ?_, fun _ hout => (nomatch hout)⟩
      obtain ⟨outcome, rfl⟩ := hchain.hooks event hin
      rfl
    · rename_i hgoes
      apply (hwork before).mono
      intro more out hlate
      constructor
      · rintro ⟨event, hin, haborts⟩
        exfalso
        rcases List.mem_append.mp hin with hin | hin
        · have hnone := hchain.continued before rfl (by simpa using hgoes) event hin
          rw [hnone] at haborts
          cases haborts
        · have hearly := Event.isEarly_of_aborts haborts
          rw [hlate.late event hin] at hearly
          cases hearly
      · exact hlate.orderly.after hchain.unwritten

theorem reading_after : ((traced b schema rules hooks settings).runHooks "after" operation entity user context).Logs
    Traced.events Reading :=
  Registry.execute_traced.mono fun _ _ hchain => hchain.reading

theorem prompted_after : ((traced b schema rules hooks settings).runHooks "after" operation entity user context).Logs
    Traced.events Prompted :=
  Registry.execute_traced.mono fun _ _ hchain => hchain.prompted

/-! ## Reads -/

theorem settled_gate {x : Except Failure α} {f : α → Act (Traced σ) Outcome}
    (hf : ∀ a, x = .ok a → (f a).Logs Traced.events (Settled entity misses)) :
    (Act.ofExcept x >>= f).Logs Traced.events (Settled entity misses) :=
  Act.logs_ofExcept_bind settled_failure hf

theorem late_reading {act : Act (Traced σ) α} (h : act.Logs Traced.events Reading) :
    act.Logs Traced.events (Late entity misses) :=
  h.mono fun _ _ hread => hread.late

theorem getMany_settled {request : ListRequest} :
    ((traced b schema rules hooks settings).getMany entity user request).Logs Traced.events (Settled entity False) := by
  unfold getMany
  apply settled_gate
  intro take _
  apply settled_gate
  intro path _
  apply settled_gate
  intro options _
  apply settled_hooks
  intro before
  apply late_reading
  apply reading_bind reading_ofExcept
  intro plan
  have hpage {tx : Access σ} : (do
      let records ← tx.traced.findMany entity plan
      let total ← tx.traced.count entity plan.filter
      return (records, total) : Act (Traced σ) (List Value × Int)).Logs Traced.events Reading := by
    apply reading_bind reading_findMany
    intro records
    apply reading_bind reading_count
    intro total
    exact reading_pure
  apply reading_bind (reading_ask (reading_inTransaction hpage))
  intro answer
  apply reading_bind reading_after
  intro after
  exact reading_pure

theorem count_settled {query : Value} :
    ((traced b schema rules hooks settings).count entity user query).Logs Traced.events (Settled entity False) := by
  unfold count
  apply settled_hooks
  intro before
  apply late_reading
  apply reading_bind reading_ofExcept
  intro filter
  apply reading_bind (reading_ask reading_count)
  intro total
  apply reading_bind reading_after
  intro after
  split
  · exact reading_pure
  · exact reading_pure

theorem get_settled {request : GetRequest} :
    ((traced b schema rules hooks settings).get entity user request).Logs Traced.events (Settled entity False) := by
  rw [get_eq]
  apply settled_gate
  intro options _
  apply settled_hooks
  intro before
  apply late_reading
  apply reading_bind reading_ofExcept
  intro p
  have hlookUp : ((traced b schema rules hooks settings).lookUp entity p).Logs Traced.events Reading := by
    apply reading_bind (reading_attempt reading_findUnique)
    intro found
    apply reading_bind (reading_attempt reading_findUnique)
    intro permitted
    apply reading_bind reading_ofExcept
    intro record
    apply reading_bind reading_ofExcept
    intro key
    exact reading_pure
  apply reading_bind (reading_ask hlookUp)
  intro lookups
  apply reading_bind reading_ofExcept
  intro result
  apply reading_bind reading_after
  intro after
  exact reading_pure

/-! ## Writes -/

theorem late_prompted {act : Act (Traced σ) α} (h : act.Logs Traced.events Prompted) :
    act.Logs Traced.events (Late entity misses) :=
  h.mono fun _ _ hprompted => hprompted.orderly

theorem create_settled {data : Value} :
    ((traced b schema rules hooks settings).create entity user data).Logs Traced.events (Settled entity False) := by
  unfold create
  apply settled_gate
  intro _ _
  apply settled_gate
  intro payload _
  apply settled_hooks
  intro before
  apply late_bind_reading reading_ofExcept
  intro payload
  apply late_bind_reading reading_ofExcept
  intro body
  apply late_bind_reading reading_ofExcept
  intro plan
  apply late_prompted
  apply prompted_bind (prompted_ask prompted_create)
  intro record
  apply prompted_bind prompted_after
  intro after
  exact prompted_pure

theorem prompted_conclude {p : Prepared} {record : Object} :
    ((traced b schema rules hooks settings).conclude entity user operation p record).Logs Traced.events Prompted := by
  apply prompted_bind prompted_after
  intro after
  exact prompted_pure

/-- A write of a row that has to be there fails if it finds none. -/
theorem late_required {e : Engine (Traced σ)} {act : Act σ (Option Object)} {call : Call} {payload : Object}
    (hwrite : call.isWrite = true) (hmisses : misses) : (do
      let record ← e.ask payload (act.traced fun out => .called call (out.map Option.isSome))
      required entity record).Logs Traced.events (Late entity misses) := by
  have hcall : (act.traced fun out => .called call (out.map Option.isSome)).Logs Traced.events fun events out =>
      Prompted events out ∧ ∀ record, out = .ok record → events = [.called call (.ok record.isSome)] := by
    apply logs_traced.mono
    rintro _ out rfl
    refine ⟨prompted_event rfl fun failure hout => by rw [hout]; rfl, fun record hout => by rw [hout]; rfl⟩
  apply (logs_ask hcall fun events failure h => ⟨h.1.answered, fun record hout => (nomatch hout)⟩).bind
  · intro events failure ⟨hprompted, _⟩
    exact ⟨hprompted.late, fun failure' hout href hun => absurd hun (hprompted.told failure' (by cases hout; rfl) href)⟩
  · intro events record ⟨hprompted, hevents⟩
    obtain rfl := hevents record rfl
    cases record with
    | none =>
        unfold required
        apply Act.logs_ofExcept
        refine ⟨hprompted.late, fun failure hout _ _ => ?_⟩
        cases hout
        exact .inr ⟨hmisses, rfl, [], call, rfl, hwrite, by simp [Unwritten]⟩
    | some record => exact Act.logs_pure ⟨hprompted.late, fun _ hout => (nomatch hout)⟩

theorem write_settled {w : Write} : ((traced b schema rules hooks settings).write entity user w).Logs Traced.events
    (Settled entity (w.isUpsert = false)) := by
  rw [write_eq]
  apply settled_gate
  intro start _
  apply settled_hooks
  intro before
  apply Act.logs_ofExcept_bind
  · intro failure
    exact Reading.late (by simp [Reading])
  intro p hp
  obtain ⟨_, hdeed⟩ := prepare_ok hp
  apply late_bind_prompted
  · unfold perform
    rcases hdeed with ⟨_, changes, whole, hdeed⟩ | ⟨hmisses, hdeed⟩
    · rw [hdeed]
      exact late_prompted (prompted_ask prompted_upsert)
    · cases hp : p.deed with
      | set changes => exact late_required rfl hmisses
      | setOrCreate changes whole => exact absurd hp (hdeed changes whole)
      | remove => exact late_required rfl hmisses
  · intro record
    exact prompted_conclude

/-! ## Batches -/

theorem prompted_collect {e : Engine (Traced σ)} {act : Act (Traced σ) α} {batch : Batch} {record : Option Object}
    {records : Option (List Object)} {count : α → Batch} (h : act.Logs Traced.events Prompted) :
    (e.collect batch record records act count).Logs Traced.events Prompted := by
  have hcount : (count <$> act).Logs Traced.events Prompted := by
    rw [map_eq_pure_bind]
    apply prompted_bind h
    intro a
    exact prompted_pure
  apply hcount.tryCatch
  · intro events batch hprompted
    exact hprompted
  · intro events failure hprompted
    cases failure with
    | fault f => exact Act.logs_pure ⟨by simpa using hprompted.late, fun _ hout => (nomatch hout)⟩
    | request _ | engine _ | schema _ | hook _ | foreign _ | illFormed =>
        exact Act.logs_ofExcept (by simpa using hprompted)

theorem late_upsertRows {a : Access σ} {permission : Object} {key : Key.UniqueKey} {followRelations : Bool}
    {rows : List Value} : ((traced b schema rules hooks settings).upsertRows a.traced entity user permission key
      followRelations rows).Logs Traced.events (Late entity False) := by
  have hexisting {rows : List Object} : (existingKeys a.traced entity key rows).Logs Traced.events Reading := by
    unfold existingKeys
    dsimp only
    split
    · exact reading_pure
    · apply reading_bind reading_findMany
      intro found
      apply reading_mapM
      intro record
      split
      · exact reading_pure
      · exact Act.logs_ofExcept (by simp [Reading])
  apply late_bind_reading reading_ofExcept
  intro rows
  apply late_bind_reading hexisting
  intro existing
  apply late_bind_reading reading_ofExcept
  intro sorted
  apply late_prompted
  have hcreates : ((traced b schema rules hooks settings).createRows a.traced entity followRelations sorted.creates
      sorted.batch).Logs Traced.events Prompted := by
    unfold createRows
    split
    · exact prompted_pure
    · split
      · exact prompted_foldlM fun batch body => prompted_collect prompted_create
      · exact prompted_collect prompted_createMany
  apply prompted_bind hcreates
  intro batch
  apply prompted_bind (prompted_foldlM fun batch update => prompted_collect prompted_update)
  intro batch
  exact prompted_pure

theorem upsertMany_settled {request : BatchRequest} :
    ((traced b schema rules hooks settings).upsertMany entity user request).Logs Traced.events
      (Settled entity False) := by
  unfold upsertMany
  split
  · exact Act.logs_pure ⟨by simp, fun _ hout => (nomatch hout)⟩
  apply settled_gate
  intro permission _
  apply settled_gate
  intro asked _
  apply settled_hooks
  intro before
  apply late_bind_reading reading_ofExcept
  intro key
  apply late_bind_prompted
  · apply late_ask
    split
    · exact late_inTransaction late_upsertRows
    · exact late_upsertRows
  · intro batch
    apply prompted_bind prompted_after
    intro after
    exact prompted_pure

theorem operate_settled (op : Operation) :
    ((traced b schema rules hooks settings).operate entity user op).Logs Traced.events (Settled entity op.misses) := by
  cases op with
  | getMany request => exact getMany_settled
  | get request => exact get_settled
  | count query => exact count_settled
  | create data => exact create_settled
  | write w => exact write_settled
  | upsertMany request => exact upsertMany_settled

/-- Nothing is asked of the storage once a hook before the work has ended an operation, and an operation that refuses
its request by itself has written nothing, but for an update or a deletion that found no row. -/
theorem refusals_precede_writes (b : Backend σ) (schema : Schema) (rules : Rules) (hooks : Registry σ)
    (settings : Settings) (entity : String) (user : User) (op : Operation) (s : σ) :
    Settled entity op.misses (trace b schema rules hooks settings entity user op s)
      (((untraced b schema rules hooks settings).operate entity user op).runOn s).1 := by
  have hlogs : ((traced b schema rules hooks settings).operate entity user op).Logs Traced.events
      (Settled entity op.misses) := operate_settled op
  obtain ⟨events, hevents, hsettled⟩ := hlogs ⟨s, []⟩
  rw [(operate_mirrors op ⟨s, []⟩).1] at hsettled
  rw [trace, hevents]
  exact hsettled

end Engine

end RecordGraph
