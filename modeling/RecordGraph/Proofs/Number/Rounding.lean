import Mathlib
import RecordGraph.Number.Binary64

/-!
# Integers as doubles

A double has 53 significant bits. An integer is rounded to a nearest one with as many bits, and is kept if it has no
more.
-/

namespace RecordGraph

variable {num den n : Nat}

theorem roundHalfEven_near (num : Nat) (h : 0 < den) : 2 * num ≤ 2 * (den * roundHalfEven num den) + den ∧
    2 * (den * roundHalfEven num den) ≤ 2 * num + den := by
  have hparts : den * (num / den) + num % den = num := Nat.div_add_mod num den
  have hless : num % den < den := Nat.mod_lt num h
  have hsucc : den * (num / den + 1) = den * (num / den) + den := Nat.mul_succ ..
  unfold roundHalfEven
  dsimp only
  split
  · omega
  · split
    · omega
    · split <;> omega

theorem roundHalfEven_one : roundHalfEven num 1 = num := by
  simp [roundHalfEven, Nat.mod_one]

namespace Binary64

/-- The value of the last of the 53 bits that a double has for a natural number. -/
def unit (n : Nat) : Nat := 2 ^ (n.log2 - 52)

theorem unit_pos : 0 < unit n := Nat.two_pow_pos _

/-- An integer that is nearest to another one among those with as many bits as a double has for it. -/
structure Rounded (n k : Int) : Prop where
  multiple : (unit n.natAbs : Int) ∣ k
  near : 2 * (n - k).natAbs ≤ unit n.natAbs

/-- An integer of at most 53 bits, trailing zeros aside. -/
def Short (n : Int) : Prop := ∃ m zeros : Nat, m < 2 ^ 53 ∧ n.natAbs = m * 2 ^ zeros

theorem short_of_lt {n : Int} (h : n.natAbs < 2 ^ 53) : Short n := ⟨n.natAbs, 0, h, by simp⟩

theorem Short.unit_dvd {n : Int} (h : Short n) : unit n.natAbs ∣ n.natAbs := by
  obtain ⟨m, zeros, hm, hn⟩ := h
  rw [hn]
  by_cases hzero : m * 2 ^ zeros = 0
  · rw [hzero]
    exact Nat.dvd_zero _
  · have hlt : m * 2 ^ zeros < 2 ^ (53 + zeros) := by
      rw [Nat.pow_add]
      exact Nat.mul_lt_mul_of_pos_right hm (Nat.two_pow_pos zeros)
    have hlog : (m * 2 ^ zeros).log2 < 53 + zeros := (Nat.log2_lt hzero).mpr hlt
    have hzeros : (m * 2 ^ zeros).log2 - 52 ≤ zeros := by omega
    exact Nat.dvd_trans (Nat.pow_dvd_pow 2 hzeros) (Nat.dvd_mul_left ..)

/-- An integer that a double has the bits for is rounded to itself. -/
theorem Rounded.eq_of_short {n k : Int} (h : Rounded n k) (hn : Short n) : k = n := by
  obtain ⟨j, rfl⟩ := h.multiple
  obtain ⟨i, hi⟩ : (unit n.natAbs : Int) ∣ n := Int.natCast_dvd.mpr hn.unit_dvd
  have hpos : 0 < unit n.natAbs := unit_pos
  have hnear := h.near
  generalize unit n.natAbs = u at *
  subst hi
  rw [← Int.mul_sub, Int.natAbs_mul, Int.natAbs_natCast] at hnear
  have hzero : (i - j).natAbs = 0 := by
    by_contra hne
    have hone : 1 ≤ (i - j).natAbs := Nat.one_le_iff_ne_zero.mpr hne
    have hle : u * 1 ≤ u * (i - j).natAbs := Nat.mul_le_mul_left u hone
    omega
  rw [show i = j by omega]

/-- The integer that a sign and a magnitude stand for. -/
def signed (negative : Bool) (n : Nat) : Int := if negative then -(n : Int) else n

theorem natAbs_signed (negative : Bool) : (signed negative n).natAbs = n := by
  cases negative <;> simp [signed]

theorem toInt?_shifted {negative : Bool} {shift : Nat} (hshift : 0 < shift) :
    (finite negative (n * 2 ^ shift) (-(shift : Int))).toInt? = some (signed negative n) := by
  have hdiv : n * 2 ^ shift / 2 ^ shift = n := Nat.mul_div_cancel n (Nat.two_pow_pos shift)
  simp [toInt?, hdiv, signed, Nat.ne_of_gt hshift]

theorem toInt?_zero {negative : Bool} : (zero negative).toInt? = some (signed negative 0) := by
  simp [zero, toInt?, signed]

theorem toInt?_scaled {negative : Bool} {shift : Nat} :
    (finite negative n shift).toInt? = some (signed negative (n * 2 ^ shift)) := by
  simp [toInt?, signed]

/-- The mantissa of a natural number is rounded in units of its last bit, and one that has become too long for it
gives a bit to the exponent. -/
theorem ofQuotient_one (negative : Bool) (hn : n ≠ 0) (hsize : n.log2 < 1023) :
    ofQuotient negative n 1 =
      if mantissaAt n 1 (n.log2 - 52) = 0x20000000000000 then finite negative 0x10000000000000 (n.log2 - 52 + 1)
      else finite negative (mantissaAt n 1 (n.log2 - 52)) (n.log2 - 52) := by
  have hreaches : reaches n 1 n.log2 = true := by
    simp [reaches, Nat.log2_self_le hn]
  have hlast : max ((n.log2 : Int) - 52) leastExponent = n.log2 - 52 := by
    simp only [leastExponent]
    omega
  simp only [ofQuotient, if_neg hn, show Nat.log2 1 = 0 from by decide, Int.natCast_zero, Int.sub_zero, hreaches,
    if_true, hlast]
  split <;> exact if_neg (by simp only [greatestExponent]; omega)

theorem mantissaAt_low {shift : Nat} (hshift : 0 < shift) : mantissaAt n 1 (-(shift : Int)) = n * 2 ^ shift := by
  simp [mantissaAt, roundHalfEven_one, Nat.ne_of_gt hshift]

theorem mantissaAt_high {shift : Nat} : mantissaAt n 1 shift = roundHalfEven n (2 ^ shift) := by
  simp [mantissaAt]

/-- A natural number is rounded as far as a double has bits for it. -/
theorem toInt?_ofQuotient (negative : Bool) (hsize : n.log2 < 1023) : ∃ k : Nat,
    (ofQuotient negative n 1).toInt? = some (signed negative k) ∧
      unit n ∣ k ∧ 2 * n ≤ 2 * k + unit n ∧ 2 * k ≤ 2 * n + unit n := by
  by_cases hn : n = 0
  · subst hn
    exact ⟨0, by rw [ofQuotient, if_pos rfl, toInt?_zero], Nat.dvd_zero _, by omega, by omega⟩
  rw [ofQuotient_one negative hn hsize]
  by_cases hlow : n.log2 < 52
  · -- Every bit of the number has room.
    obtain ⟨shift, hpos, hshift⟩ : ∃ shift : Nat, 0 < shift ∧ n.log2 + shift = 52 := ⟨52 - n.log2, by omega, by omega⟩
    have hlast : (n.log2 : Int) - 52 = -(shift : Int) := by omega
    have hshort : n * 2 ^ shift < 0x20000000000000 := by
      calc n * 2 ^ shift < 2 ^ (n.log2 + 1) * 2 ^ shift :=
            Nat.mul_lt_mul_of_pos_right Nat.lt_log2_self (Nat.two_pow_pos shift)
        _ = 2 ^ 53 := by rw [← Nat.pow_add, show n.log2 + 1 + shift = 53 by omega]
    have hunit : unit n = 1 := by rw [unit, Nat.sub_eq_zero_of_le (by omega), Nat.pow_zero]
    rw [hlast, mantissaAt_low hpos, if_neg (Nat.ne_of_lt hshort), toInt?_shifted hpos, hunit]
    exact ⟨n, rfl, Nat.one_dvd n, by omega, by omega⟩
  · obtain ⟨shift, hshift⟩ : ∃ shift, n.log2 = 52 + shift := ⟨n.log2 - 52, by omega⟩
    have hlast : (n.log2 : Int) - 52 = shift := by omega
    have hunit : unit n = 2 ^ shift := by rw [unit, hshift, Nat.add_sub_cancel_left]
    obtain ⟨hbelow, habove⟩ := roundHalfEven_near n (Nat.two_pow_pos shift)
    rw [hlast, mantissaAt_high, hunit]
    refine ⟨2 ^ shift * roundHalfEven n (2 ^ shift), ?_, Nat.dvd_mul_right .., hbelow, habove⟩
    split
    · next hlong =>
      -- The number is rounded up to a power of two, which is written with one bit more in the exponent.
      rw [← Int.natCast_one, ← Int.natCast_add, toInt?_scaled, hlong, Nat.pow_succ]
      congr 2
      omega
    · rw [toInt?_scaled, Nat.mul_comm]

theorem ofDecimal_whole (negative : Bool) : ofDecimal negative n 0 = ofQuotient negative n 1 := by
  by_cases hn : n = 0
  · simp [ofDecimal, ofQuotient, hn]
  · have hsmall : ¬ (n.log2 : Int) < -400 := by omega
    simp [ofDecimal, hn, hsmall]

/-- An integer in decimal digits is read as a nearest one that a double has the bits for. -/
theorem toInt?_ofDecimal (negative : Bool) (hsize : n.log2 < 1023) : ∃ k : Int,
    (ofDecimal negative n 0).toInt? = some k ∧ Rounded (signed negative n) k := by
  obtain ⟨k, hk, hdvd, hbelow, habove⟩ := toInt?_ofQuotient negative hsize
  rw [ofDecimal_whole]
  refine ⟨signed negative k, hk, ⟨?_, ?_⟩⟩
  · rw [natAbs_signed, Int.natCast_dvd, natAbs_signed]
    exact hdvd
  · rw [natAbs_signed]
    cases negative <;> simp only [signed, if_true, Bool.false_eq_true, if_false] <;> omega

end Binary64

end RecordGraph
