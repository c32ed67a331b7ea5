import RecordGraph.Proofs.Operation.Running

/-!
# What effects do not end with

An effect avoids some failures if it ends with none of them. What it comes to and what it leaves otherwise is
told along with that, so that effects which are put together avoid what each of them avoids.
-/

namespace RecordGraph.Act

variable {σ α β : Type} {bad : Failure → Prop}

/-- The effect succeeds as told, or ends with a failure that is none of the bad ones. -/
def Avoids (bad : Failure → Prop) (x : Act σ α) (s : σ) (Q : α → σ → Prop) : Prop :=
  match x.runOn s with
  | (.ok a, t) => Q a t
  | (.error failure, _) => ¬ bad failure

/-- The effect never ends with a bad failure. -/
def Shuns (bad : Failure → Prop) (x : Act σ α) : Prop := ∀ s, x.Avoids bad s fun _ _ => True

/-- The outcome is no bad failure. -/
def Spares (bad : Failure → Prop) : Except Failure α → Prop
  | .ok _ => True
  | .error failure => ¬ bad failure

variable {x : Act σ α} {f : α → Act σ β} {s t : σ} {Q R : α → σ → Prop} {P : β → σ → Prop} {a : α}

theorem avoids_of_run (h : x.runOn s = (.ok a, t)) (hq : Q a t) : x.Avoids bad s Q := by
  rw [Avoids, h]
  exact hq

theorem avoids_pure (hq : Q a s) : (pure a : Act σ α).Avoids bad s Q := hq

theorem avoids_throw {failure : Failure} (h : ¬ bad failure) : (throw failure : Act σ α).Avoids bad s Q := h

theorem avoids_lift {outcome : Except Failure α} (h : Spares bad outcome) :
    (liftM outcome : Act σ α).Avoids bad s fun a t => outcome = .ok a ∧ t = s := by
  cases outcome with
  | ok a => exact avoids_of_run runOn_liftM ⟨rfl, rfl⟩
  | error failure => exact h

theorem Avoids.spared {failure : Failure} (h : x.Avoids bad s Q) (hrun : x.runOn s = (.error failure, t)) :
    ¬ bad failure := by
  rwa [Avoids, hrun] at h

theorem Avoids.mono (h : x.Avoids bad s Q) (hq : ∀ a t, Q a t → R a t) : x.Avoids bad s R := by
  rw [Avoids] at h ⊢
  rcases hrun : x.runOn s with ⟨failure | a, t⟩ <;> rw [hrun] at h
  · exact h
  · exact hq a t h

theorem Avoids.bind (h : x.Avoids bad s Q) (hf : ∀ a t, Q a t → (f a).Avoids bad t P) : (x >>= f).Avoids bad s P := by
  rw [Avoids, runOn_bind]
  rw [Avoids] at h
  rcases hrun : x.runOn s with ⟨failure | a, t⟩ <;> rw [hrun] at h
  · exact h
  · exact hf a t h

theorem Avoids.after (h : x.runOn s = (.ok a, t)) (hf : (f a).Avoids bad t P) : (x >>= f).Avoids bad s P := by
  rw [Avoids, runOn_bind_of h]
  exact hf

theorem Avoids.get {f : σ → Act σ β} (h : (f s).Avoids bad s P) : (MonadState.get >>= f).Avoids bad s P :=
  .after runOn_get h

theorem Shuns.avoids (h : x.Shuns bad) (hf : ∀ a t, (f a).Avoids bad t P) : (x >>= f).Avoids bad s P :=
  (h s).bind fun a t _ => hf a t

theorem spares_pure : Spares bad (pure a : Except Failure α) := trivial

/-- Where no failure is bad, every outcome is spared. -/
theorem Spares.of_none {outcome : Except Failure α} (h : ∀ failure, ¬ bad failure) : Spares bad outcome := by
  cases outcome with
  | ok a => trivial
  | error failure => exact h failure

theorem Spares.bind {x : Except Failure α} {f : α → Except Failure β} (h : Spares bad x) (hf : ∀ a, Spares bad (f a)) :
    Spares bad (x >>= f) := by
  cases x with
  | ok a => exact hf a
  | error failure => exact h

theorem Spares.mapM {f : α → Except Failure β} (hf : ∀ a, Spares bad (f a)) (items : List α) :
    Spares bad (items.mapM f) := by
  induction items with
  | nil => trivial
  | cons a items ih =>
      rw [List.mapM_cons]
      exact (hf a).bind fun _ => ih.bind fun _ => trivial

/-! ## Loops -/

theorem avoids_mapM {I : List β → List α → σ → Prop} {items : List α} {done : List β} {f : α → Act σ β}
    (h : ∀ done a rest s, I done (a :: rest) s → (f a).Avoids bad s fun b t => I (done ++ [b]) rest t)
    (hs : I done items s) : (items.mapM f).Avoids bad s fun bs t => I (done ++ bs) [] t := by
  induction items generalizing done s with
  | nil => exact avoids_pure (by simpa using hs)
  | cons a items ih =>
      rw [List.mapM_cons]
      refine (h done a items s hs).bind fun b t hb => (ih hb).bind fun bs u hbs => avoids_pure ?_
      rwa [List.append_assoc] at hbs

theorem avoids_forIn {I : List α → σ → Prop} {items : List α} {f : α → PUnit → Act σ (ForInStep PUnit)}
    (h : ∀ a rest s, I (a :: rest) s → (f a ⟨⟩).Avoids bad s fun step t => step = .yield ⟨⟩ ∧ I rest t)
    (hs : I items s) : (forIn items PUnit.unit f).Avoids bad s fun _ t => I [] t := by
  induction items generalizing s with
  | nil => exact avoids_pure hs
  | cons a items ih =>
      rw [List.forIn_cons]
      refine (h a items s hs).bind fun step t hstep => ?_
      obtain ⟨rfl, ht⟩ := hstep
      exact ih ht

/-! ## Never -/

theorem shuns_pure : (pure a : Act σ α).Shuns bad := fun _ => avoids_pure trivial

theorem shuns_get : (get : Act σ σ).Shuns bad := fun _ => avoids_of_run runOn_get trivial

theorem shuns_modify {g : σ → σ} : (modify g : Act σ PUnit).Shuns bad := fun _ => avoids_of_run rfl trivial

theorem shuns_throw {failure : Failure} (h : ¬ bad failure) : (throw failure : Act σ α).Shuns bad :=
  fun _ => avoids_throw h

theorem shuns_lift {outcome : Except Failure α} (h : Spares bad outcome) : (liftM outcome : Act σ α).Shuns bad :=
  fun _ => (avoids_lift h).mono fun _ _ _ => trivial

theorem Shuns.bind (h : x.Shuns bad) (hf : ∀ a, (f a).Shuns bad) : (x >>= f).Shuns bad :=
  fun s => (h s).bind fun a t _ => hf a t

theorem Shuns.mapM {items : List α} (h : ∀ a ∈ items, (f a).Shuns bad) : (items.mapM f).Shuns bad := by
  induction items with
  | nil => exact shuns_pure
  | cons a items ih =>
      rw [List.mapM_cons]
      refine (h a List.mem_cons_self).bind fun _ => ?_
      exact (ih fun b hin => h b (List.mem_cons_of_mem _ hin)).bind fun _ => shuns_pure

theorem Shuns.forIn {items : List α} {g : α → PUnit → Act σ (ForInStep PUnit)}
    (h : ∀ a ∈ items, ∀ r, (g a r).Shuns bad) : (forIn items PUnit.unit g).Shuns bad := by
  induction items with
  | nil => exact shuns_pure
  | cons a items ih =>
      rw [List.forIn_cons]
      refine (h a List.mem_cons_self _).bind fun step => ?_
      cases step with
      | done _ => exact shuns_pure
      | yield _ => exact ih fun b hin => h b (List.mem_cons_of_mem _ hin)

end RecordGraph.Act
