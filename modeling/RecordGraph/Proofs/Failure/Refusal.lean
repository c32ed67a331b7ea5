import RecordGraph.Proofs.Failure.Success

/-!
# Kinds of failures

A computation in several steps fails in the ways its steps do. What is told of the failures of a computation says
nothing of its results.
-/

namespace RecordGraph

/-- A request error that says that a request is invalid or not permitted. -/
def Failure.isRefusal : Failure → Bool
  | .request e => e.kind == .validation || e.kind == .access
  | .fault _ | .engine _ | .schema _ | .hook _ | .foreign _ | .illFormed => false

/-- A failure that says that a request is invalid. -/
def Failure.IsInvalid (failure : Failure) : Prop := ∃ message data, failure = .validation message data

/-- If a computation fails, its failure is of a kind. -/
def FailsOnly {α : Type} (kind : Failure → Prop) (x : Except Failure α) : Prop :=
  ∀ failure, x = .error failure → kind failure

/-- If there is a failure, it says that the request is invalid. -/
abbrev Validating {α : Type} (x : Except Failure α) : Prop := FailsOnly Failure.IsInvalid x

namespace FailsOnly

variable {α β : Type} {kind other : Failure → Prop} {x : Except Failure α} {f : α → Except Failure β} {failure : Failure}

theorem ok {a : α} : FailsOnly kind (.ok a) := by
  intro failure h
  cases h

theorem error (h : kind failure) : FailsOnly kind (.error failure : Except Failure α) := by
  intro failure' he
  cases he
  exact h

theorem of_ok {a : α} (h : x = .ok a) : FailsOnly kind x := by
  rw [h]
  exact ok

theorem mono (hx : FailsOnly kind x) (h : ∀ failure, kind failure → other failure) : FailsOnly other x :=
  fun failure he => h failure (hx failure he)

theorem bind (hx : FailsOnly kind x) (hf : ∀ a, x = .ok a → FailsOnly kind (f a)) : FailsOnly kind (x >>= f) := by
  cases x with
  | error failure => exact error (hx failure rfl)
  | ok a => exact hf a rfl

theorem map (hx : FailsOnly kind x) {g : α → β} : FailsOnly kind (g <$> x) := by
  cases x with
  | error failure => exact error (hx failure rfl)
  | ok a => exact ok

theorem mapM {items : List α} (h : ∀ item ∈ items, FailsOnly kind (f item)) : FailsOnly kind (items.mapM f) := by
  induction items with
  | nil => exact ok
  | cons item items ih =>
      rw [List.mapM_cons]
      refine (h item List.mem_cons_self).bind fun b _ => ?_
      exact (ih fun item hin => h item (List.mem_cons_of_mem _ hin)).bind fun bs _ => ok

/-- The steps of a fold fail so, as long as an invariant of the state holds that they keep. -/
theorem foldlM {step : β → α → Except Failure β} {I : β → Prop} {items : List α} {start : β} (hs : I start)
    (h : ∀ item ∈ items, ∀ state, I state → FailsOnly kind (step state item))
    (keep : ∀ {item state next}, item ∈ items → I state → step state item = .ok next → I next) :
    FailsOnly kind (items.foldlM step start) := by
  induction items generalizing start with
  | nil => exact ok
  | cons item items ih =>
      rw [List.foldlM_cons]
      refine (h item List.mem_cons_self start hs).bind fun next hnext => ?_
      exact ih (keep List.mem_cons_self hs hnext) (fun item hin => h item (List.mem_cons_of_mem _ hin))
        fun hin => keep (List.mem_cons_of_mem _ hin)

/-- The steps of a fold fail so, whatever the state is. -/
theorem fold {step : β → α → Except Failure β} {items : List α} {start : β}
    (h : ∀ item ∈ items, ∀ state, FailsOnly kind (step state item)) : FailsOnly kind (items.foldlM step start) :=
  foldlM (I := fun _ => True) trivial (fun item hin state _ => h item hin state) fun _ _ _ => trivial

theorem forIn {f : α → β → Except Failure (ForInStep β)} {items : List α} {start : β}
    (h : ∀ item ∈ items, ∀ state, FailsOnly kind (f item state)) : FailsOnly kind (forIn items start f) := by
  induction items generalizing start with
  | nil => exact ok
  | cons item items ih =>
      rw [List.forIn_cons]
      refine (h item List.mem_cons_self start).bind fun next _ => ?_
      cases next with
      | done _ => exact ok
      | yield _ => exact ih fun item hin => h item (List.mem_cons_of_mem _ hin)

end FailsOnly

end RecordGraph
