import Mathlib.Data.List.Forall2
import RecordGraph.Operation.Act

/-!
# How effects run

The outcome of an effect and the state that it leaves, for each way in which effects are put together; and what all
its runs have in common: what they add to a log, and how they end.
-/

namespace RecordGraph.Act

section Runs

variable {σ α β : Type} {x : Act σ α} {f : α → Act σ β} {s t : σ}

theorem liftM_pure {a : α} : (liftM (pure a : Except Failure α) : Act σ α) = pure a := rfl

theorem liftM_throw {failure : Failure} :
    (liftM (throw failure : Except Failure α) : Act σ α) = throw failure := rfl

theorem liftM_bind {x : Except Failure α} {f : α → Except Failure β} :
    (liftM (x >>= f) : Act σ β) = (liftM x : Act σ α) >>= fun a => liftM (f a) := by
  cases x <;> rfl

theorem throw_bind {failure : Failure} : (throw failure : Act σ α) >>= f = throw failure := rfl

theorem runOn_pure {a : α} : (pure a : Act σ α).runOn s = (.ok a, s) := rfl

theorem runOn_get : (get : Act σ σ).runOn s = (.ok s, s) := rfl

theorem runOn_ofExcept {outcome : Except Failure α} :
    (ofExcept outcome : Act σ α).runOn s = (outcome, s) := rfl

theorem runOn_liftM {outcome : Except Failure α} : (liftM outcome : Act σ α).runOn s = (outcome, s) := rfl

theorem runOn_attempt : x.attempt.runOn s = (.ok (x.runOn s).1, (x.runOn s).2) := rfl

theorem runOn_bind : (x >>= f).runOn s = match x.runOn s with
    | (.ok a, s') => (f a).runOn s'
    | (.error failure, s') => (.error failure, s') := by
  simp only [runOn, ExceptT.run_bind, StateT.run_bind]
  rcases StateT.run (ExceptT.run x) s with ⟨_ | _, _⟩ <;> rfl

theorem runOn_bind_of {a : α} (h : x.runOn s = (.ok a, t)) : (x >>= f).runOn s = (f a).runOn t := by
  rw [runOn_bind, h]

theorem runOn_bind_error {failure : Failure} (h : x.runOn s = (.error failure, t)) :
    (x >>= f).runOn s = (.error failure, t) := by
  rw [runOn_bind, h]

theorem runOn_tryCatch {handle : Failure → Act σ α} : (tryCatch x handle).runOn s = match x.runOn s with
    | (.ok a, s') => (.ok a, s')
    | (.error failure, s') => (handle failure).runOn s' := by
  simp only [runOn, ExceptT.run_tryCatch, StateT.run_bind]
  rcases StateT.run (ExceptT.run x) s with ⟨_ | _, _⟩ <;> rfl

/-- Effects one after the other succeed if each of them does. -/
theorem runOn_bind_ok_iff {b : β} : (x >>= f).runOn s = (.ok b, t) ↔
    ∃ a s', x.runOn s = (.ok a, s') ∧ (f a).runOn s' = (.ok b, t) := by
  rw [runOn_bind]
  rcases x.runOn s with ⟨_ | a, s'⟩
  · exact ⟨fun h => (nomatch h), fun ⟨_, _, h, _⟩ => (nomatch h)⟩
  · exact ⟨fun h => ⟨a, s', rfl, h⟩, fun ⟨_, _, h, hf⟩ => by cases h; exact hf⟩

theorem runOn_liftM_ok_iff {outcome : Except Failure α} {a : α} :
    (liftM outcome : Act σ α).runOn s = (.ok a, t) ↔ outcome = .ok a ∧ t = s := by
  show (ofExcept outcome : Act σ α).runOn s = _ ↔ _
  rw [runOn_ofExcept, Prod.mk.injEq, eq_comm (a := s)]

theorem runOn_get_ok_iff {a : σ} : (get : Act σ σ).runOn s = (.ok a, t) ↔ a = s ∧ t = s := by
  rw [runOn_get, Prod.mk.injEq, Except.ok.injEq, eq_comm (a := s), eq_comm (a := s) (b := t)]

theorem runOn_pure_ok_iff {a b : α} : (pure a : Act σ α).runOn s = (.ok b, t) ↔ b = a ∧ t = s := by
  rw [runOn_pure, Prod.mk.injEq, Except.ok.injEq, eq_comm (a := a), eq_comm (a := s)]

theorem runOn_attempt_ok_iff {outcome : Except Failure α} :
    x.attempt.runOn s = (.ok outcome, t) ↔ x.runOn s = (outcome, t) := by
  rw [runOn_attempt, Prod.mk.injEq, Except.ok.injEq]
  exact ⟨fun h => Prod.ext h.1 h.2, fun h => ⟨congrArg Prod.fst h, congrArg Prod.snd h⟩⟩

/-- A list is mapped without a change of the state if no item changes it. -/
theorem runOn_mapM_ok {items : List α} {results : List β}
    (hf : ∀ a b t, (f a).runOn s = (.ok b, t) → t = s) (h : (items.mapM f).runOn s = (.ok results, t)) :
    t = s ∧ List.Forall₂ (fun a b => (f a).runOn s = (.ok b, s)) items results := by
  induction items generalizing results t with
  | nil =>
      rw [List.mapM_nil, runOn_pure] at h
      cases h
      exact ⟨rfl, .nil⟩
  | cons a items ih =>
      rw [List.mapM_cons, runOn_bind_ok_iff] at h
      obtain ⟨b, s', hb, hrest⟩ := h
      obtain ⟨bs, s'', hbs, hpure⟩ := runOn_bind_ok_iff.mp hrest
      obtain rfl := hf a b s' hb
      obtain ⟨rfl, hall⟩ := ih hbs
      rw [runOn_pure] at hpure
      cases hpure
      exact ⟨rfl, .cons hb hall⟩

theorem runOn_mapM_of {items : List α} {g : α → β} (h : ∀ a ∈ items, (f a).runOn s = (.ok (g a), s)) :
    (items.mapM f).runOn s = (.ok (items.map g), s) := by
  induction items with
  | nil => rfl
  | cons a items ih =>
      rw [List.mapM_cons]
      refine (runOn_bind_of (h a List.mem_cons_self)).trans ?_
      exact (runOn_bind_of (ih fun a hin => h a (List.mem_cons_of_mem _ hin))).trans rfl

end Runs

/-! ## Logs

A state may carry a log that effects only add to. What an effect does is then told by what it adds and by how it
ends, and both are worked out effect by effect.
-/

section Logs

variable {τ ι α β : Type} {log : τ → List ι}

/-- What holds of the entries that an effect adds to any log, and of how it then ends. -/
def Logs (act : Act τ α) (log : τ → List ι) (Q : List ι → Except Failure α → Prop) : Prop :=
  ∀ start, ∃ added, log (act.runOn start).2 = log start ++ added ∧ Q added (act.runOn start).1

variable {act : Act τ α} {f : α → Act τ β} {P P' : List ι → Except Failure α → Prop}
  {Q : List ι → Except Failure β → Prop}

theorem Logs.mono (h : act.Logs log P) (himp : ∀ added out, P added out → P' added out) : act.Logs log P' := by
  intro start
  obtain ⟨added, hadded, hp⟩ := h start
  exact ⟨added, hadded, himp _ _ hp⟩

theorem logs_ofExcept {outcome : Except Failure α} (h : P [] outcome) :
    (ofExcept outcome : Act τ α).Logs log P := by
  intro start
  exact ⟨[], by rw [runOn_ofExcept, List.append_nil], h⟩

theorem logs_pure {a : α} (h : P [] (.ok a)) : (pure a : Act τ α).Logs log P := by
  intro start
  exact ⟨[], by rw [runOn_pure, List.append_nil], h⟩

/-- One effect after the other: a failure of the first ends both. -/
theorem Logs.bind (h : act.Logs log P) (hfail : ∀ added failure, P added (.error failure) → Q added (.error failure))
    (hok : ∀ added a, P added (.ok a) → (f a).Logs log fun more out => Q (added ++ more) out) :
    (act >>= f).Logs log Q := by
  intro start
  obtain ⟨added, hadded, hp⟩ := h start
  rw [runOn_bind]
  rcases hrun : act.runOn start with ⟨out, next⟩
  rw [hrun] at hadded hp
  cases out with
  | error failure => exact ⟨added, hadded, hfail _ _ hp⟩
  | ok a =>
      obtain ⟨more, hmore, hq⟩ := hok _ _ hp next
      exact ⟨added ++ more, by rw [hmore, hadded, List.append_assoc], hq⟩

/-- A step that adds nothing. -/
theorem Logs.bind_quiet {R : α → Prop} (h : act.Logs log fun added out => added = [] ∧ ∀ a, out = .ok a → R a)
    (hfail : ∀ failure, Q [] (.error failure)) (hok : ∀ a, R a → (f a).Logs log Q) : (act >>= f).Logs log Q := by
  apply h.bind
  · rintro added failure ⟨rfl, _⟩
    exact hfail failure
  · rintro added a ⟨rfl, hr⟩
    exact hok a (hr a rfl)

/-- An outcome that is known already is a step that adds nothing. -/
theorem logs_ofExcept_bind {outcome : Except Failure α} (hfail : ∀ failure, Q [] (.error failure))
    (hok : ∀ a, outcome = .ok a → (f a).Logs log Q) : (ofExcept outcome >>= f).Logs log Q :=
  (logs_ofExcept ⟨rfl, fun _ h => h⟩).bind_quiet hfail hok

theorem Logs.tryCatch {handle : Failure → Act τ α} (h : act.Logs log P)
    (hok : ∀ added a, P added (.ok a) → P' added (.ok a))
    (hfail : ∀ added failure, P added (.error failure) →
      (handle failure).Logs log fun more out => P' (added ++ more) out) : (tryCatch act handle).Logs log P' := by
  intro start
  obtain ⟨added, hadded, hp⟩ := h start
  rw [runOn_tryCatch]
  rcases hrun : act.runOn start with ⟨out, next⟩
  rw [hrun] at hadded hp
  cases out with
  | error failure =>
      obtain ⟨more, hmore, hq⟩ := hfail _ _ hp next
      exact ⟨added ++ more, by rw [hmore, hadded, List.append_assoc], hq⟩
  | ok a => exact ⟨added, hadded, hok _ _ hp⟩

theorem Logs.attempt (h : act.Logs log P) : act.attempt.Logs log fun added out => ∃ o, out = .ok o ∧ P added o := by
  intro start
  obtain ⟨added, hadded, hp⟩ := h start
  exact ⟨added, hadded, _, rfl, hp⟩

end Logs

/-! ## Endings -/

section Endings

variable {σ α β : Type} {kept : σ → Prop} {kind : Failure → Prop} {P : α → Prop} {Q : β → Prop} {act : Act σ α}
  {f : α → Act σ β}

/-- Begun in a state that is kept, an effect ends in one with a result that has a property, or with a failure of a
kind. -/
def Ends (kept : σ → Prop) (kind : Failure → Prop) (P : α → Prop) (act : Act σ α) : Prop :=
  ∀ s, kept s → match act.runOn s with
    | (.ok a, t) => kept t ∧ P a
    | (.error failure, _) => kind failure

theorem Ends.bind (h : act.Ends kept kind P) (hf : ∀ a, P a → (f a).Ends kept kind Q) :
    (act >>= f).Ends kept kind Q := by
  intro s hs
  have hact := h s hs
  rw [runOn_bind]
  rcases hrun : act.runOn s with ⟨failure | a, t⟩ <;> rw [hrun] at hact
  · exact hact
  · exact hf a hact.2 t hact.1

theorem ends_pure {a : α} (h : P a) : (pure a : Act σ α).Ends kept kind P := fun _ hs => ⟨hs, h⟩

theorem ends_liftM {x : Except Failure α} (hfail : ∀ failure, x = .error failure → kind failure) :
    (liftM x : Act σ α).Ends kept kind fun a => x = .ok a := by
  intro s hs
  rw [runOn_liftM]
  cases x with
  | error failure => exact hfail failure rfl
  | ok a => exact ⟨hs, rfl⟩

theorem Ends.outcome (h : act.Ends kept kind P) {s : σ} (hs : kept s) :
    (∃ a t, act.runOn s = (.ok a, t) ∧ P a) ∨ ∃ failure t, act.runOn s = (.error failure, t) ∧ kind failure := by
  have hact := h s hs
  rcases hrun : act.runOn s with ⟨failure | a, t⟩ <;> rw [hrun] at hact
  · exact .inr ⟨failure, t, rfl, hact⟩
  · exact .inl ⟨a, t, rfl, hact.2⟩

end Endings

end RecordGraph.Act
