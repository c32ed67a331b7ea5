import RecordGraph.Proofs.Relational.Meaning
import RecordGraph.Proofs.Value.Proper

/-!
# Conditions that are decided

A condition on a column is what a filter says of the column. It is unknown only for a null: in the row, or
among the operands. Beside it stands its opposite, which holds where it fails and fails where it holds.
-/

namespace RecordGraph

namespace Truth

variable {a b : Truth}

theorem not_not (a : Truth) : a.not.not = a := by cases a <;> rfl

theorem not_or (a b : Truth) : (a.or b).not = a.not.and b.not := not_not _

@[simp] theorem fails_and (a : Truth) : Truth.fails.and a = .fails := by cases a <;> rfl

@[simp] theorem and_fails (a : Truth) : a.and .fails = .fails := by cases a <;> rfl

theorem or_eq (a b : Truth) : a.or b = (a.not.and b.not).not := rfl

theorem ofBool_not (p : Bool) : ofBool (!p) = (ofBool p).not := by cases p <;> rfl

/-! ## Outcomes that are known -/

theorem ofBool_known {p : Bool} : ofBool p ≠ .unknown := by cases p <;> simp [ofBool]

theorem not_known (h : a ≠ .unknown) : a.not ≠ .unknown := by cases a <;> simp_all [Truth.not]

theorem and_known (ha : a ≠ .unknown) (hb : b ≠ .unknown) : a.and b ≠ .unknown := by
  cases a <;> cases b <;> simp_all [Truth.and]

theorem or_known (ha : a ≠ .unknown) (hb : b ≠ .unknown) : a.or b ≠ .unknown :=
  not_known (and_known (not_known ha) (not_known hb))

end Truth

theorem Comparison.eval_unequal (a b : Cell) :
    Comparison.unequal.eval a b = (Comparison.equal.eval a b).not := by
  unfold eval
  split
  · rfl
  · exact Truth.ofBool_not _

namespace Condition

variable {db : Database} {row : Row} {column : String} {cond : Condition} {conds : List Condition}

/-! ## Conditions that name no column -/

mutual

theorem eval_constant {b : Bool} : ∀ {cond : Condition}, cond.constant? = some b → cond.eval db row = .ofBool b
  | .all conds => by
      rw [constant?, eval]
      exact evalAll_constant
  | .any conds => by
      rw [constant?, eval]
      exact evalAny_constant
  | .negation cond => by
      intro h
      simp only [constant?, Option.map_eq_some_iff] at h
      obtain ⟨p, hp, rfl⟩ := h
      rw [eval, eval_constant hp, Truth.ofBool_not]
  | .isNull _ | .compare .. | .among .. | .finds .. | .linked .. => by
      rw [constant?]
      · intro h
        cases h
      all_goals simp

theorem evalAll_constant {b : Bool} :
    ∀ {conds : List Condition}, constantAll? conds = some b → evalAll db row conds = .ofBool b
  | [] => by
      rintro ⟨⟩
      rw [evalAll, Truth.ofBool, if_pos rfl]
  | cond :: conds => by
      intro h
      rw [constantAll?] at h
      rw [evalAll]
      split at h
      · rename_i hfirst
        cases h
        rw [eval_constant hfirst]
        exact Truth.fails_and _
      · rename_i hrest _
        cases h
        rw [evalAll_constant hrest]
        exact Truth.and_fails _
      · rename_i hfirst _
        rw [eval_constant hfirst, evalAll_constant h]
        exact Truth.holds_and _
      · cases h

theorem evalAny_constant {b : Bool} :
    ∀ {conds : List Condition}, constantAny? conds = some b → evalAny db row conds = .ofBool b
  | [] => by
      rintro ⟨⟩
      rw [evalAny, Truth.ofBool, if_neg Bool.false_ne_true]
  | cond :: conds => by
      intro h
      rw [constantAny?] at h
      rw [evalAny, Truth.or_eq]
      split at h
      · rename_i hfirst
        cases h
        rw [eval_constant hfirst]
        simp [Truth.ofBool, Truth.not]
      · rename_i hrest _
        cases h
        rw [evalAny_constant hrest]
        simp [Truth.ofBool, Truth.not]
      · rename_i hfirst _
        rw [eval_constant hfirst, evalAny_constant h]
        cases b <;> rfl
      · cases h

end

/-! ## Conditions on a column -/

/-- The condition speaks of one column and of nothing else. -/
inductive About (column : String) : Condition → Prop
  | isNull : About column (.isNull column)
  | compare {comparison : Comparison} {operand : Except Failure Cell} :
    About column (.compare comparison column operand)
  | among {operands : List (Except Failure Cell)} : About column (.among column operands)
  | finds {place : TextMatch} {part : String} : About column (.finds place column part)
  | all {conds : List Condition} (h : ∀ cond ∈ conds, About column cond) : About column (.all conds)
  | any {conds : List Condition} (h : ∀ cond ∈ conds, About column cond) : About column (.any conds)
  | negation {cond : Condition} (h : About column cond) : About column cond.negation

/-- The operand is taken, and is not null. -/
def Taken (operand : Except Failure Cell) : Prop := ∃ cell, operand = .ok cell ∧ cell.isNull = false

theorem eval_known {comparison : Comparison} {cell : Cell} {operand : Except Failure Cell} (hcell : cell.isNull = false)
    (h : Taken operand) : comparison.eval cell (cellOf operand) ≠ .unknown := by
  obtain ⟨cell', rfl, hcell'⟩ := h
  simp only [Comparison.eval, cellOf, hcell, hcell', Bool.or_self, Bool.false_eq_true, if_false]
  exact Truth.ofBool_known

theorem isAmong_known {cell : Cell} {operands : List (Except Failure Cell)} (hcell : cell.isNull = false)
    (h : ∀ operand ∈ operands, Taken operand) : isAmong cell operands ≠ .unknown := by
  have hfold {t : Truth} (ht : t ≠ .unknown) :
      operands.foldl (fun t o => t.or (Comparison.equal.eval cell (cellOf o))) t ≠ .unknown := by
    induction operands generalizing t with
    | nil => exact ht
    | cons operand operands ih =>
        rw [List.foldl_cons]
        apply ih fun operand hin => h operand (List.mem_cons_of_mem _ hin)
        exact Truth.or_known ht (eval_known hcell (h operand List.mem_cons_self))
  exact hfold (by decide)

theorem evalAll_known (h : ∀ cond ∈ conds, cond.eval db row ≠ .unknown) : evalAll db row conds ≠ .unknown := by
  induction conds with
  | nil => simp [evalAll]
  | cons cond conds ih =>
      exact Truth.and_known (h cond List.mem_cons_self) (ih fun cond hin => h cond (List.mem_cons_of_mem _ hin))

theorem evalAny_known (h : ∀ cond ∈ conds, cond.eval db row ≠ .unknown) : evalAny db row conds ≠ .unknown := by
  induction conds with
  | nil => simp [evalAny]
  | cons cond conds ih =>
      exact Truth.or_known (h cond List.mem_cons_self) (ih fun cond hin => h cond (List.mem_cons_of_mem _ hin))

mutual

/-- The columns whose cells a condition compares in the row itself. -/
def columns : Condition → List String
  | .compare _ column _ | .among column _ | .finds _ column _ => [column]
  | .all conds | .any conds => columnsOf conds
  | .negation cond => columns cond
  | .isNull _ | .linked .. => []

def columnsOf : List Condition → List String
  | [] => []
  | cond :: conds => columns cond ++ columnsOf conds

end

theorem mem_columnsOf : column ∈ columnsOf conds ↔ ∃ cond ∈ conds, column ∈ cond.columns := by
  induction conds with
  | nil => simp [columnsOf]
  | cons cond conds ih => simp [columnsOf, ih]

mutual

/-- A condition is decided in every row that has a value in each column that it compares, if all of its operands
are taken. A part whose operands are not handed over is settled without them. -/
theorem eval_filled : ∀ {cond : Condition}, (∀ column ∈ cond.columns, (row.get column).isNull = false) →
    (∀ operand ∈ cond.operands, Taken operand) → cond.eval db row ≠ .unknown
  | .isNull _, _, _ => Truth.ofBool_known
  | .compare _ column _, hfilled, htaken =>
      eval_known (hfilled column (by simp [columns])) (htaken _ List.mem_cons_self)
  | .among column _, hfilled, htaken => isAmong_known (hfilled column (by simp [columns])) htaken
  | .finds _ column _, hfilled, _ => by
      simp only [eval, TextMatch.eval, hfilled column (by simp [columns]), Bool.false_eq_true, if_false]
      exact Truth.ofBool_known
  | .all conds, hfilled, htaken => by
      rw [eval]
      cases hconst : constantAll? conds with
      | some b =>
          rw [evalAll_constant hconst]
          exact Truth.ofBool_known
      | none =>
          simp only [operands, hconst, Option.isSome_none, Bool.false_eq_true, if_false] at htaken
          exact evalAll_known (eval_filledOf hfilled htaken)
  | .any conds, hfilled, htaken => by
      rw [eval]
      cases hconst : constantAny? conds with
      | some b =>
          rw [evalAny_constant hconst]
          exact Truth.ofBool_known
      | none =>
          simp only [operands, hconst, Option.isSome_none, Bool.false_eq_true, if_false] at htaken
          exact evalAny_known (eval_filledOf hfilled htaken)
  | .negation _, hfilled, htaken => Truth.not_known (eval_filled hfilled htaken)
  | .linked .., _, _ => Truth.ofBool_known

theorem eval_filledOf : ∀ {conds : List Condition}, (∀ column ∈ columnsOf conds, (row.get column).isNull = false) →
    (∀ operand ∈ operandsOf conds, Taken operand) → ∀ cond ∈ conds, cond.eval db row ≠ .unknown
  | [], _, _ => by simp
  | _ :: _, hfilled, htaken => List.forall_mem_cons.mpr
      ⟨eval_filled (fun column hin => hfilled column (List.mem_append_left _ hin))
          fun operand hin => htaken operand (List.mem_append_left _ hin),
        eval_filledOf (fun column hin => hfilled column (List.mem_append_right _ hin))
          fun operand hin => htaken operand (List.mem_append_right _ hin)⟩

end

theorem About.columns (h : About column cond) : ∀ name ∈ cond.columns, name = column := by
  induction h with
  | isNull => simp [Condition.columns]
  | compare | among | finds => simp [Condition.columns]
  | all _ ih | any _ ih =>
      intro name hin
      obtain ⟨cond, hcond, hname⟩ := mem_columnsOf.mp hin
      exact ih cond hcond name hname
  | negation _ ih => exact ih

/-- A condition on a column is decided in every row that has a value there, if all of its operands are taken. -/
theorem About.decided (h : About column cond) (hrow : (row.get column).isNull = false)
    (hoperands : ∀ operand ∈ cond.operands, Taken operand) : cond.eval db row ≠ .unknown :=
  eval_filled (fun name hname => h.columns name hname ▸ hrow) hoperands

theorem about_always : About column always := .all (by simp)

/-! ## Opposites -/

/-- Where one condition holds the other fails, and they are unknown in the same rows. -/
def Opposite (cond other : Condition) : Prop := ∀ db row, other.eval db row = (cond.eval db row).not

variable {other : Condition}

theorem opposite_negation : Opposite cond cond.negation := fun _ _ => by rw [eval]

theorem eval_all_single : (all [cond]).eval db row = cond.eval db row := by
  simp [eval, evalAll]

theorem Opposite.all_single (h : Opposite cond other) : Opposite (all [cond]) (all [other]) := by
  intro db row
  rw [eval_all_single, eval_all_single, h]

/-- Alternatives are denied one by one. -/
theorem opposite_any : Opposite (any conds) (all (conds.map negation)) := by
  intro db row
  simp only [eval]
  induction conds with
  | nil => rfl
  | cons cond conds ih => rw [List.map_cons, evalAll, ih, eval, evalAny, Truth.not_or]

/-- No row is selected by a condition and by its opposite. -/
theorem Opposite.disjoint (h : Opposite cond other) (db : Database) (row : Row) :
    ¬ (cond.selects db row = true ∧ other.selects db row = true) := by
  simp only [selects_iff, h db row]
  cases cond.eval db row <;> simp [Truth.not]

/-- A row for which a condition is decided is selected by it or by its opposite. -/
theorem Opposite.covers (h : Opposite cond other) (hknown : cond.eval db row ≠ .unknown) :
    cond.selects db row = true ∨ other.selects db row = true := by
  simp only [selects_iff, h db row]
  cases hcond : cond.eval db row <;> simp_all [Truth.not]

end Condition

/-! ## What filters say of columns -/

namespace Column

open Condition (About Opposite)

variable {column : Column} {v : Value} {cond : Condition}

theorem equals_about {comparison : Comparison} : About column.name (column.equals v comparison) := by
  unfold equals
  split <;> exact .compare

theorem equalTo_about (h : column.equalTo v = .ok cond) : About column.name cond := by
  unfold equalTo at h
  split at h
  · obtain rfl := pure_ok_iff.mp h
    exact .isNull
  · obtain ⟨w, _, h⟩ := bind_ok_iff.mp h
    obtain rfl := pure_ok_iff.mp h
    exact equals_about

theorem unequalTo_about (h : column.unequalTo v = .ok cond) : About column.name cond := by
  unfold unequalTo at h
  split at h
  · obtain rfl := pure_ok_iff.mp h
    exact .negation .isNull
  · obtain ⟨w, _, h⟩ := bind_ok_iff.mp h
    obtain rfl := pure_ok_iff.mp h
    exact equals_about

theorem ordered_about {comparison : Comparison} (h : column.ordered comparison v = .ok cond) :
    About column.name cond := by
  obtain ⟨w, _, h⟩ := bind_ok_iff.mp h
  split at h
  · cases h
  · cases h
  · obtain rfl := pure_ok_iff.mp h
    exact .compare

theorem oneOf_about {vs : List Value} (h : column.oneOf vs = .ok cond) : About column.name cond := by
  obtain ⟨ws, _, h⟩ := bind_ok_iff.mp h
  split at h
  · split at h
    · cases h
    · obtain rfl := pure_ok_iff.mp h
      exact .among
  · obtain rfl := pure_ok_iff.mp h
    exact .among

theorem operator_about {op : String} (h : column.operator op v = .ok cond) : About column.name cond := by
  unfold operator at h
  split at h
  · exact equalTo_about h
  · exact unequalTo_about h
  · exact oneOf_about h
  · obtain ⟨c, hone, rfl⟩ := map_ok_iff.mp h
    exact .negation (oneOf_about hone)
  · exact ordered_about h
  · exact ordered_about h
  · exact ordered_about h
  · exact ordered_about h
  · obtain rfl := pure_ok_iff.mp h
    exact .finds
  · obtain rfl := pure_ok_iff.mp h
    exact .finds
  · obtain rfl := pure_ok_iff.mp h
    exact .finds
  · obtain rfl := pure_ok_iff.mp h
    exact Condition.about_always
  · cases h

/-- One operator, by induction on the operators that it denies. -/
theorem operation_about {op : String} (h : column.operation op v = .ok cond) : About column.name cond := by
  induction v using Value.induct generalizing op cond with
  | step v ih =>
      cases v with
      | object nested =>
          rw [operation] at h
          split at h
          · obtain ⟨conds, hconds, rfl⟩ := map_ok_iff.mp h
            refine .negation (.all fun part hp => ?_)
            obtain ⟨⟨op', w⟩, hw, hpart⟩ := forall₂_partner (operators_ok_iff.mp hconds).flip hp
            exact ih w (Value.sizeOf_member hw) hpart
          · exact operator_about h
      | _ => exact operator_about (by simpa only [operation] using h)

theorem condition_about (h : column.condition v = .ok cond) : About column.name cond := by
  unfold condition at h
  split at h
  · obtain ⟨conds, hconds, rfl⟩ := map_ok_iff.mp h
    refine .all fun part hp => ?_
    obtain ⟨⟨op, w⟩, _, hpart⟩ := forall₂_partner (operators_ok_iff.mp hconds).flip hp
    exact operation_about hpart
  · exact equalTo_about h

/-- Equality with a value and its denial are opposite, whatever the value is read as. -/
theorem equals_opposite : Opposite (column.equals v .equal) (column.equals v .unequal) := by
  intro db row
  cases v <;> simp only [equals, Condition.eval, Comparison.eval_unequal]

end Column

end RecordGraph
