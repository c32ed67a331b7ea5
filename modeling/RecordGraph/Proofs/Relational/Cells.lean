import RecordGraph.Relational.Cell

/-!
# Equal cells

To the engine, cells are equal if they are of one rank: the same exact number, the same text. So
equality of cells is symmetric and transitive, over integers and doubles alike.
-/

namespace RecordGraph

theorem Fraction.compare_eq_iff {f g : Fraction} (hf : f.den ≠ 0) (hg : g.den ≠ 0) :
    f.compare g = .eq ↔ mkRat f.num f.den = mkRat g.num g.den := by
  rw [Rat.mkRat_eq_iff hf hg]
  exact Std.LawfulEqOrd.compare_eq_iff_eq

theorem Fraction.scaled_den {m e : Int} : (scaled m 2 e).den ≠ 0 := by
  unfold scaled
  split
  · simp
  · exact Nat.pos_iff_ne_zero.mp (Nat.pow_pos (by decide))

theorem Binary64.toFraction?_den {x : Binary64} {f : Fraction} (h : x.toFraction? = some f) : f.den ≠ 0 := by
  cases x with
  | finite negative m q =>
      cases h
      exact Fraction.scaled_den
  | nan | infinite => cases h

namespace Cell

/-- What a cell counts as in comparisons. -/
inductive Rank where
  | null
  | exact (q : Rat)
  /-- A double that is no exact number. -/
  | other (x : Binary64)
  | text (s : String)

def rank : Cell → Rank
  | .null => .null
  | .integer n => .exact (mkRat n 1)
  | .real x =>
    match x.toFraction? with
    | some f => .exact (mkRat f.num f.den)
    | none => .other x
  | .text s => .text s

theorem order_integer_real {n : Int} {y : Binary64} : (integer n).order (real y) = .eq ↔
    (integer n).rank = (real y).rank := by
  have horder : (integer n).order (real y) = match y.toFraction? with
      | some g => (Fraction.ofInt n).compare g
      | none => if y.isNegative then .gt else .lt := rfl
  rw [horder]
  simp only [rank]
  cases hy : y.toFraction? with
  | some g =>
      dsimp only
      rw [Fraction.compare_eq_iff (by simp [Fraction.ofInt]) (y.toFraction?_den hy), Rank.exact.injEq]
      rfl
  | none => cases y.isNegative <;> simp

theorem order_reals {x y : Binary64} : (real x).order (real y) = .eq ↔ (real x).rank = (real y).rank := by
  show compareDoubles x y = .eq ↔ _
  rw [compareDoubles]
  simp only [rank]
  cases hx : x.toFraction? with
  | some f =>
      cases hy : y.toFraction? with
      | some g => simp [Fraction.compare_eq_iff (x.toFraction?_den hx) (y.toFraction?_den hy)]
      | none => cases y.isNegative <;> simp
  | none =>
      cases hy : y.toFraction? with
      | some g => cases x.isNegative <;> simp
      | none => by_cases h : x = y <;> cases x.isNegative <;> simp [h]

theorem order_swapped {x : Binary64} {n : Int} : (real x).order (integer n) = .eq ↔
    (real x).rank = (integer n).rank := by
  rw [eq_comm (a := (real x).rank), ← order_integer_real]
  show Ordering.swap ((integer n).order (real x)) = .eq ↔ _
  cases (integer n).order (real x) <;> simp

theorem order_eq_iff {a b : Cell} : a.order b = .eq ↔ a.rank = b.rank := by
  cases a with
  | null => cases b <;> simp [order, rank]; split <;> simp
  | integer m =>
      cases b with
      | integer n =>
          rw [order, rank, rank, Rank.exact.injEq, Rat.mkRat_eq_iff Nat.one_ne_zero Nat.one_ne_zero]
          simp
      | real y => exact order_integer_real
      | null | text => simp [order, rank]
  | real x =>
      cases b with
      | integer n => exact order_swapped
      | real y => exact order_reals
      | null | text => simp only [order, rank]; split <;> simp
  | text s =>
      cases b with
      | text t => simp [order, rank]
      | real y => simp only [order, rank]; split <;> simp
      | null | integer => simp [order, rank]

theorem same_iff {a b : Cell} : a.same b = true ↔ a.isNull = false ∧ b.isNull = false ∧ a.rank = b.rank := by
  simp [same, order_eq_iff, and_assoc]

theorem same_self {a : Cell} (h : a.isNull = false) : a.same a = true := same_iff.mpr ⟨h, h, rfl⟩

theorem same_symm {a b : Cell} (h : a.same b = true) : b.same a = true := by
  obtain ⟨ha, hb, hrank⟩ := same_iff.mp h
  exact same_iff.mpr ⟨hb, ha, hrank.symm⟩

theorem same_trans {a b d : Cell} (h : a.same b = true) (h' : b.same d = true) : a.same d = true := by
  obtain ⟨ha, _, hrank⟩ := same_iff.mp h
  obtain ⟨_, hd, hrank'⟩ := same_iff.mp h'
  exact same_iff.mpr ⟨ha, hd, hrank.trans hrank'⟩

end Cell

end RecordGraph
