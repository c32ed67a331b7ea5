import RecordGraph.Proofs.Operation.Chains

/-!
# Effects that agree

Two effects agree if from corresponding states they end alike: with the same failure or with results that
correspond, and again in corresponding states. There is a rule for each way in which effects are put together.
-/

namespace RecordGraph

/-- Outcomes that are the same failure, or results that correspond. -/
inductive Concordant {α β : Type} (Q : α → β → Prop) : Except Failure α → Except Failure β → Prop
  | error {failure} : Concordant Q (.error failure) (.error failure)
  | ok {a b} (h : Q a b) : Concordant Q (.ok a) (.ok b)

theorem Concordant.mono {α β : Type} {Q Q' : α → β → Prop} {x : Except Failure α} {y : Except Failure β}
    (hQ : ∀ a b, Q a b → Q' a b) (h : Concordant Q x y) : Concordant Q' x y := by
  cases h with
  | error => exact .error
  | ok h => exact .ok (hQ _ _ h)

theorem Concordant.eq {α : Type} {x y : Except Failure α} (h : Concordant (· = ·) x y) : x = y := by
  cases h with
  | error => rfl
  | ok h => rw [h]

theorem bind_congr_ok {α β : Type} {x : Except Failure α} {f g : α → Except Failure β}
    (h : ∀ a, x = .ok a → f a = g a) : x >>= f = x >>= g := by
  cases x with
  | error => rfl
  | ok a => exact h a rfl

theorem filterMapM_congr {α β : Type} {f g : α → Except Failure (Option β)} {items : List α}
    (h : ∀ a ∈ items, f a = g a) : items.filterMapM f = items.filterMapM g := by
  induction items with
  | nil => rfl
  | cons a items ih =>
      rw [List.filterMapM_cons, List.filterMapM_cons, h a List.mem_cons_self,
        ih fun b hb => h b (List.mem_cons_of_mem _ hb)]

/-- What goes on from outcomes that agree is the same if it is for results that correspond. -/
theorem Concordant.bind_eq {α β γ : Type} {Q : α → β → Prop} {x : Except Failure α} {y : Except Failure β}
    {f : α → Except Failure γ} {g : β → Except Failure γ} (h : Concordant Q x y)
    (hf : ∀ a b, Q a b → f a = g b) : x >>= f = y >>= g := by
  cases h with
  | error => rfl
  | ok h => exact hf _ _ h

namespace Act

variable {σ α β γ δ : Type} {R : σ → σ → Prop} {Q : α → β → Prop} {P : γ → δ → Prop}

def Agree (R : σ → σ → Prop) (Q : α → β → Prop) (x : Act σ α) (y : Act σ β) : Prop :=
  ∀ s t, R s t → Concordant Q (x.runOn s).1 (y.runOn t).1 ∧ R (x.runOn s).2 (y.runOn t).2

theorem Agree.mono {Q' : α → β → Prop} {x : Act σ α} {y : Act σ β} (hQ : ∀ a b, Q a b → Q' a b)
    (h : Agree R Q x y) : Agree R Q' x y :=
  fun s t hs => ⟨(h s t hs).1.mono hQ, (h s t hs).2⟩

theorem Agree.outcome {x y : Act σ α} (h : Agree R (· = ·) x y) {s t : σ} (hs : R s t) :
    (x.runOn s).1 = (y.runOn t).1 :=
  (h s t hs).1.eq

/-- What is known of a result on one side comes with the correspondence. -/
theorem Agree.also {x : Act σ α} {y : Act σ β} {known : α → Prop} (h : Agree R Q x y)
    (hk : ∀ s a s', x.runOn s = (.ok a, s') → known a) : Agree R (fun a b => Q a b ∧ known a) x y := by
  intro s t hs
  obtain ⟨houtcome, hstate⟩ := h s t hs
  have hleft := hk s
  generalize x.runOn s = left, y.runOn t = right at houtcome hstate hleft ⊢
  obtain ⟨outcome, s'⟩ := left
  obtain ⟨outcome', t'⟩ := right
  refine ⟨?_, hstate⟩
  cases houtcome with
  | error => exact .error
  | ok hab => exact .ok ⟨hab, hleft _ _ rfl⟩

theorem agree_pure {a : α} {b : β} (h : Q a b) : Agree R Q (pure a) (pure b) :=
  fun _ _ hs => ⟨.ok h, hs⟩

theorem Agree.bind {x : Act σ α} {y : Act σ β} {f : α → Act σ γ} {g : β → Act σ δ} (h : Agree R Q x y)
    (hf : ∀ a b, Q a b → Agree R P (f a) (g b)) : Agree R P (x >>= f) (y >>= g) := by
  intro s t hs
  obtain ⟨houtcome, hstate⟩ := h s t hs
  rw [runOn_bind, runOn_bind]
  generalize x.runOn s = left, y.runOn t = right at houtcome hstate
  obtain ⟨outcome, s'⟩ := left
  obtain ⟨outcome', t'⟩ := right
  cases houtcome with
  | error => exact ⟨.error, hstate⟩
  | ok hab => exact hf _ _ hab s' t' hstate

/-- What is worked out without the state is the same on both sides. -/
theorem agree_liftM_bind {x : Except Failure α} {f : α → Act σ γ} {g : α → Act σ δ}
    (h : ∀ a, x = .ok a → Agree R P (f a) (g a)) :
    Agree R P ((liftM x : Act σ α) >>= f) ((liftM x : Act σ α) >>= g) := by
  cases x with
  | error failure => exact fun _ _ hs => ⟨.error, hs⟩
  | ok a => exact fun s t hs => h a rfl s t hs

theorem agree_get_bind {f : σ → Act σ γ} {g : σ → Act σ δ} (h : ∀ s t, R s t → Agree R P (f s) (g t)) :
    Agree R P ((get : Act σ σ) >>= f) ((get : Act σ σ) >>= g) :=
  fun s t hs => h s t hs s t hs

/-- A loop over items that correspond, by induction on the items. -/
theorem agree_mapM {f : α → Act σ γ} {g : β → Act σ δ} (hf : ∀ a b, Q a b → Agree R P (f a) (g b))
    {xs : List α} {ys : List β} (h : List.Forall₂ Q xs ys) :
    Agree R (List.Forall₂ P) (xs.mapM f) (ys.mapM g) := by
  induction h with
  | nil => exact agree_pure .nil
  | cons hab _ ih =>
      rw [List.mapM_cons, List.mapM_cons]
      exact (hf _ _ hab).bind fun _ _ hc => ih.bind fun _ _ hcs => agree_pure (.cons hc hcs)

end Act

/-! ## Hooks and the border to the storage -/

/-- Hooks that do the same whichever of corresponding states they run in. -/
def Registry.Blind {σ : Type} (r : Registry σ) (R : σ → σ → Prop) (operation entity : String) : Prop :=
  ∀ stage, ∀ h ∈ r.handlers stage operation entity, ∀ c, Act.Agree R (· = ·) (h.run c) (h.run c)

namespace Registry

variable {σ : Type} {r : Registry σ} {R : σ → σ → Prop} {stage operation entity : String} {c : HookContext}

theorem agree_runChain {hs : List (Handler σ)} (hb : ∀ h ∈ hs, ∀ c, Act.Agree R (· = ·) (h.run c) (h.run c)) :
    Act.Agree R (· = ·) (runChain hs c) (runChain hs c) := by
  induction hs generalizing c with
  | nil => exact Act.agree_pure rfl
  | cons first rest ih =>
      refine (hb first List.mem_cons_self c).bind fun c₁ _ he => ?_
      obtain rfl := he
      split
      · exact Act.agree_pure rfl
      · exact ih fun h hin => hb h (List.mem_cons_of_mem _ hin)

theorem Blind.execute (hb : r.Blind R operation entity) (he : c.entity = entity) :
    Act.Agree R (· = ·) (r.execute stage operation c) (r.execute stage operation c) := by
  rw [Registry.execute, he]
  exact agree_runChain (hb stage)

theorem blind_none (h : r.entries = []) : r.Blind R operation entity := by
  intro stage g hg
  simp [handlers_none h] at hg

end Registry

namespace Engine

variable {σ α : Type} {R : σ → σ → Prop} {e : Engine σ} {payload : Object}

theorem agree_ask {act : Act σ α} (h : Act.Agree R (· = ·) act act) :
    Act.Agree R (· = ·) (e.ask payload act) (e.ask payload act) := by
  intro s t hs
  obtain ⟨houtcome, hstate⟩ := h s t hs
  rw [ask_run, ask_run]
  generalize act.runOn s = left, act.runOn t = right at houtcome hstate
  obtain ⟨outcome, s'⟩ := left
  obtain ⟨outcome', t'⟩ := right
  cases houtcome with
  | error => exact ⟨.error, hstate⟩
  | ok hab => exact ⟨.ok hab, hstate⟩

end Engine

end RecordGraph
