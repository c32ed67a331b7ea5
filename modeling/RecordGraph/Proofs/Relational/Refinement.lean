import RecordGraph.Proofs.Relational.Meaning

/-!
# Refined conditions

When a condition takes the place of another one. Where it stands on its own it may select fewer
rows; where it is denied it must have the same outcome for every row. Conditions that hold of every
row can be left out of a conjunction.
-/

namespace RecordGraph

/-- How well a condition has to stand for another. -/
inductive Fit where
  /-- It selects no other rows. -/
  | within
  /-- It has the same outcome for every row. -/
  | exact
deriving Repr, DecidableEq, Inhabited

namespace Truth

theorem or_fails (t : Truth) : Truth.or t .fails = t := by cases t <;> rfl

end Truth

namespace Condition

variable {fit : Fit} {c d : Condition} {cs ds : List Condition}

/-- The condition holds of every row. -/
def Idle (c : Condition) : Prop := ∀ db row, c.eval db row = .holds

/-- A condition stands for another one. -/
def Refines (fit : Fit) (original refined : Condition) : Prop :=
  ∀ db row, match fit with
    | .within => refined.eval db row = .holds → original.eval db row = .holds
    | .exact => refined.eval db row = original.eval db row

theorem Refines.refl (c : Condition) : Refines fit c c := by
  intro db row
  cases fit with
  | within => exact id
  | exact => rfl

/-- Same outcomes make a fit of either kind. -/
theorem Refines.of_exact (h : Refines .exact c d) : Refines fit c d := by
  intro db row
  have he : d.eval db row = c.eval db row := h db row
  cases fit with
  | within => exact fun hd => he ▸ hd
  | exact => exact he

theorem Refines.trans {e : Condition} (h : Refines fit c d) (h' : Refines fit d e) : Refines fit c e := by
  intro db row
  cases fit with
  | within => exact fun he => h db row (h' db row he)
  | exact => exact (h' db row).trans (h db row)

theorem Refines.idle (h : Refines fit c d) (hd : d.Idle) : c.Idle := by
  intro db row
  cases fit with
  | within => exact h db row (hd db row)
  | exact => exact (h db row).symm.trans (hd db row)

theorem Refines.negation (h : Refines .exact c d) : Refines fit (.negation c) (.negation d) := by
  refine Refines.of_exact fun db row => ?_
  have he : d.eval db row = c.eval db row := h db row
  simp only [eval, he]

theorem Refines.linked {l : Link} (h : Refines fit c d) : Refines fit (.linked l c) (.linked l d) := by
  intro db row
  cases fit with
  | within =>
      simp only [eval, Truth.ofBool_holds_iff, List.any_eq_true, beq_iff_eq]
      rintro ⟨other, hm, hd⟩
      exact ⟨other, hm, h db other hd⟩
  | exact =>
      have he : ∀ other, d.eval db other = c.eval db other := h db
      simp only [eval, he]

theorem idle_all (h : ∀ c ∈ cs, c.Idle) : (all cs).Idle := by
  intro db row
  simp only [eval, evalAll_holds_iff]
  exact fun c hc => h c hc db row

/-! ## Lists of conditions -/

/-- Conditions that stand for others, one by one; idle ones may be left out. -/
inductive Kept (fit : Fit) : List Condition → List Condition → Prop
  | nil : Kept fit [] []
  | keep {a b as bs} (h : Refines fit a b) (hs : Kept fit as bs) : Kept fit (a :: as) (b :: bs)
  | drop {a as bs} (h : a.Idle) (hs : Kept fit as bs) : Kept fit (a :: as) bs

theorem Kept.all (h : Kept fit cs ds) : Refines fit (all cs) (all ds) := by
  induction h with
  | nil => exact .refl _
  | keep h _ ih =>
      intro db row
      have hr := h db row
      have hi := ih db row
      cases fit with
      | within =>
          simp only [eval, evalAll, Truth.and_holds_iff] at hi ⊢
          exact And.imp hr hi
      | exact =>
          simp only [eval, evalAll] at hr hi ⊢
          rw [hr, hi]
  | drop h _ ih =>
      intro db row
      have hr := h db row
      have hi := ih db row
      cases fit with
      | within =>
          simp only [eval, evalAll, Truth.and_holds_iff] at hi ⊢
          exact fun hds => ⟨hr, hi hds⟩
      | exact =>
          simp only [eval, evalAll] at hi ⊢
          rw [hr, Truth.holds_and, hi]

/-- An alternative that loses an idle part held of every row. -/
theorem Kept.any (h : Kept .within cs ds) : Refines .within (any cs) (any ds) := by
  induction h with
  | nil => exact .refl _
  | keep h _ ih =>
      intro db row
      have hr := h db row
      have hi := ih db row
      simp only [eval, evalAny, Truth.or_holds_iff] at hi ⊢
      exact fun hd => hd.imp hr hi
  | drop h _ ih =>
      intro db row
      simp only [eval, evalAny, Truth.or_holds_iff]
      exact fun _ => .inl (h db row)

/-- Conditions that stand for others one by one, none left out. -/
theorem refines_any (h : List.Forall₂ (Refines fit) cs ds) : Refines fit (any cs) (any ds) := by
  induction h with
  | nil => exact .refl _
  | cons h _ ih =>
      intro db row
      have hr := h db row
      have hi := ih db row
      cases fit with
      | within =>
          simp only [eval, evalAny, Truth.or_holds_iff] at hi ⊢
          exact fun hd => hd.imp hr hi
      | exact =>
          simp only [eval, evalAny] at hr hi ⊢
          rw [hr, hi]

theorem refines_denied (h : List.Forall₂ (Refines .exact) cs ds) :
    Refines fit (all (cs.map .negation)) (all (ds.map .negation)) := by
  refine Kept.all ?_
  induction h with
  | nil => exact .nil
  | cons h _ ih => exact .keep h.negation ih

end Condition

end RecordGraph
