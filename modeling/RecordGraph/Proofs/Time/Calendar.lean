import Mathlib.Data.Nat.ModEq
import Mathlib.Order.Monotone.Basic
import RecordGraph.Time.Reading

/-!
# Days of the calendar

A day that is counted out or read is a day of the calendar. Every one of them but the last has a next day.
-/

namespace RecordGraph.Date

variable {d : Date} {year month n : Nat}

/-! ## Years and months -/

theorem daysBeforeYear_succ (h : 1 ≤ year) :
    daysBeforeYear (year + 1) = daysBeforeYear year + if isLeapYear year then 366 else 365 := by
  obtain ⟨p, rfl⟩ := Nat.exists_eq_add_of_le' h
  have hleap : isLeapYear (p + 1) = true ↔ 4 ∣ p + 1 ∧ (¬ 100 ∣ p + 1 ∨ 400 ∣ p + 1) := by
    simp [isLeapYear, Nat.dvd_iff_mod_eq_zero]
  have h100 : 100 ∣ p + 1 → 4 ∣ p + 1 := Nat.dvd_trans (by decide)
  have h400 : 400 ∣ p + 1 → 100 ∣ p + 1 := Nat.dvd_trans (by decide)
  have hle : p / 100 ≤ p := Nat.div_le_self ..
  simp only [daysBeforeYear, hleap, Nat.add_sub_cancel, Nat.succ_div]
  -- whether a quotient grows is all that is to be known of it
  generalize p / 4 = fours at *
  generalize p / 100 = hundreds at *
  generalize p / 400 = cycles at *
  by_cases h4 : 4 ∣ p + 1 <;> by_cases hc : 100 ∣ p + 1 <;> by_cases hq : 400 ∣ p + 1 <;> simp_all <;> omega

theorem daysBeforeYear_mono : Monotone daysBeforeYear := by
  refine monotone_nat_of_le_succ fun year => ?_
  simp only [daysBeforeYear]
  omega

theorem daysBeforeMonth_succ (h : 1 ≤ month) :
    daysBeforeMonth year (month + 1) = daysBeforeMonth year month + daysInMonth year month := by
  obtain ⟨m, rfl⟩ := Nat.exists_eq_add_of_le' h
  simp [daysBeforeMonth, List.range_succ]

/-- The days of a year, month by month. -/
theorem daysBeforeMonth_whole : daysBeforeMonth year 13 = if isLeapYear year then 366 else 365 := by
  have hmonths : List.range 12 = [0, 1, 2, 3, 4, 5, 6, 7, 8, 9, 10, 11] := rfl
  simp only [daysBeforeMonth, Nat.add_one_sub_one, hmonths]
  cases h : isLeapYear year <;> simp [daysInMonth, h]

theorem daysBeforeMonth_mono (year : Nat) : Monotone (daysBeforeMonth year) := by
  refine monotone_nat_of_le_succ fun month => ?_
  rcases Nat.eq_zero_or_pos month with rfl | h
  · exact Nat.le_refl _
  · rw [daysBeforeMonth_succ h]
    exact Nat.le_add_right ..

/-! ## Days that are counted out -/

/-- The month that holds a day of the rest of a year, and the place of the day in it. -/
theorem monthFrom_spec {fuel m day : Nat} (hm : 1 ≤ month) (hfuel : month + fuel = 12) (hn : 1 ≤ n)
    (hle : daysBeforeMonth year month + n ≤ daysBeforeMonth year 13) (h : monthFrom year fuel month n = (m, day)) :
    1 ≤ m ∧ m ≤ 12 ∧ 1 ≤ day ∧ day ≤ daysInMonth year m ∧
      daysBeforeMonth year m + day = daysBeforeMonth year month + n := by
  induction fuel generalizing month n with
  | zero =>
      obtain rfl : month = 12 := hfuel
      cases h
      have hlast : daysBeforeMonth year 13 = daysBeforeMonth year 12 + daysInMonth year 12 := daysBeforeMonth_succ (by omega)
      omega
  | succ fuel ih =>
      rw [monthFrom] at h
      split at h
      · cases h
        omega
      · have hsucc : daysBeforeMonth year (month + 1) = daysBeforeMonth year month + daysInMonth year month :=
          daysBeforeMonth_succ hm
        have hrest := ih (by omega) (by omega) (by omega) (by omega) h
        omega

/-- Of the years that begin before a day, the last one is found, unless it is too far. -/
theorem passYears_spec (steps : Nat) (h1 : 1 ≤ year) (hstart : daysBeforeYear year < n) :
    let found := (List.range steps).foldl (fun y _ => if daysBeforeYear (y + 1) < n then y + 1 else y) year
    1 ≤ found ∧ daysBeforeYear found < n ∧ (n ≤ daysBeforeYear (found + 1) ∨ found = year + steps) := by
  induction steps with
  | zero => exact ⟨h1, hstart, .inr rfl⟩
  | succ steps ih =>
      simp only [List.range_succ, List.foldl_append, List.foldl_cons, List.foldl_nil] at ih ⊢
      obtain ⟨hpos, hbefore, hfound⟩ := ih
      split
      · rename_i hnext
        exact ⟨by omega, hnext, .inr (by omega)⟩
      · rename_i hlast
        exact ⟨hpos, hbefore, .inl (by omega)⟩

/-- The day with a number is in the calendar, and has that number. -/
theorem ofOrdinal?_spec {k : Int} (h : ofOrdinal? k = some d) : d.IsValid ∧ (d.ordinal : Int) = k := by
  unfold ofOrdinal? at h
  split at h
  · cases h
  · rename_i hrange
    rw [not_or, Int.not_lt, Int.not_lt] at hrange
    obtain ⟨n, rfl⟩ := Int.eq_ofNat_of_zero_le (by omega : 0 ≤ k)
    have hfirst : daysBeforeYear ((n - 1) / 366 + 1) < n := by
      simp only [daysBeforeYear]
      omega
    have hyear := passYears_spec 30 (Nat.succ_pos _) hfirst
    simp only [Int.toNat_natCast] at h hyear
    generalize (List.range 30).foldl _ ((n - 1) / 366 + 1) = year at h hyear
    obtain ⟨h1, hbefore, hfound⟩ := hyear
    have hnext : n ≤ daysBeforeYear (year + 1) := by
      rcases hfound with hfound | rfl
      · exact hfound
      · simp only [daysBeforeYear]
        omega
    have hend : year ≤ 9999 := by
      by_contra hfar
      have hlate := daysBeforeYear_mono (show 10000 ≤ year by omega)
      have hcount : daysBeforeYear 10000 = 3652059 := rfl
      omega
    rw [daysBeforeYear_succ h1, ← daysBeforeMonth_whole] at hnext
    cases hmonth : monthFrom year 11 1 (n - daysBeforeYear year) with
    | mk m day =>
        have hjanuary : daysBeforeMonth year 1 = 0 := rfl
        obtain ⟨hm, hm', hday, hday', hsum⟩ := monthFrom_spec (by omega) (by omega) (by omega) (by omega) hmonth
        rw [hmonth] at h
        cases h
        refine ⟨⟨h1, hend, hm, hm', hday, hday'⟩, ?_⟩
        simp only [ordinal]
        omega

/-- The last day of the calendar. -/
def last : Date := ⟨9999, 12, 31⟩

/-- The days of the calendar are counted up to the last one. -/
theorem IsValid.ordinal_le (h : d.IsValid) : d.ordinal ≤ last.ordinal ∧ (d.ordinal = last.ordinal → d = last) := by
  obtain ⟨year, month, day⟩ := d
  obtain ⟨hy, hy', hm, hm', hd, hd'⟩ := h
  simp only at hy hy' hm hm' hd hd'
  have hlast : last.ordinal = 3652059 := rfl
  have hwithin : daysBeforeMonth year month + day ≤ daysBeforeMonth year (month + 1) := by
    rw [daysBeforeMonth_succ hm]
    omega
  rw [hlast, ordinal]
  simp only
  rcases Nat.lt_or_ge year 9999 with hearly | hlate
  · have hyears := daysBeforeYear_mono (show year + 1 ≤ 9999 by omega)
    have hmonths := daysBeforeMonth_mono year (show month + 1 ≤ 13 by omega)
    have hcount : daysBeforeYear 9999 = 3651694 := rfl
    rw [daysBeforeYear_succ hy, ← daysBeforeMonth_whole] at hyears
    omega
  · obtain rfl : year = 9999 := Nat.le_antisymm hy' hlate
    have hcount : daysBeforeYear 9999 = 3651694 := rfl
    rcases Nat.lt_or_ge month 12 with hbefore | hdecember
    · have hmonths := daysBeforeMonth_mono 9999 (show month + 1 ≤ 12 by omega)
      have hdays : daysBeforeMonth 9999 12 = 334 := rfl
      omega
    · obtain rfl : month = 12 := Nat.le_antisymm hm' hdecember
      have hdays : daysBeforeMonth 9999 12 = 334 := rfl
      have hlength : daysInMonth 9999 12 = 31 := rfl
      refine ⟨by omega, fun heq => ?_⟩
      obtain rfl : day = 31 := by omega
      rfl

/-- Every day of the calendar but the last one has a next day. -/
theorem addDays?_one (h : d.IsValid) (hlast : d ≠ last) : ∃ next, d.addDays? 1 = some next := by
  obtain ⟨hle, heq⟩ := h.ordinal_le
  have hcount : last.ordinal = 3652059 := rfl
  have hne : d.ordinal ≠ last.ordinal := fun h => hlast (heq h)
  unfold addDays? ofOrdinal?
  rw [if_neg (by omega)]
  exact ⟨_, rfl⟩

/-! ## Days that are read -/

theorem of?_valid {day : Nat} (h : of? year month day = some d) : d.IsValid := by
  unfold of? at h
  split at h
  · cases h
    assumption
  · cases h

theorem ofWeek?_valid {week day : Nat} (h : ofWeek? year week day = some d) : d.IsValid := by
  unfold ofWeek? at h
  split at h
  · cases h
  · exact (ofOrdinal?_spec h).1

theorem readFirst?_valid {length : Nat} {cs : List Char} (h : readFirst? length cs = some d) : d.IsValid := by
  unfold readFirst? at h
  obtain ⟨⟨year, rest⟩, _, h⟩ := Option.bind_eq_some_iff.mp h
  dsimp only at h
  split at h
  · obtain ⟨⟨week, after⟩, _, h⟩ := Option.bind_eq_some_iff.mp h
    have hday (read : Option (Nat × List Char)) (h : (read.bind fun x => ofWeek? year week x.1) = some d) :
        d.IsValid := by
      obtain ⟨_, _, h⟩ := Option.bind_eq_some_iff.mp h
      exact ofWeek?_valid h
    dsimp only at h
    split at h
    · repeat' split at h
      all_goals first
        | exact hday _ h
        | cases h
    · exact ofWeek?_valid h
  · obtain ⟨⟨month, after⟩, _, h⟩ := Option.bind_eq_some_iff.mp h
    have hday (read : Option (Nat × List Char)) (h : (read.bind fun x => of? year month x.1) = some d) :
        d.IsValid := by
      obtain ⟨_, _, h⟩ := Option.bind_eq_some_iff.mp h
      exact of?_valid h
    dsimp only at h
    repeat' split at h
    all_goals first
      | exact hday _ h
      | cases h

end RecordGraph.Date

namespace RecordGraph.DateTime

theorem read?_valid {text : List Char} {t : DateTime} (h : read? text = some t) : t.date.IsValid := by
  unfold read? at h
  dsimp only at h
  split at h
  · cases h
  · obtain ⟨date, hdate, h⟩ := Option.bind_eq_some_iff.mp h
    split at h
    · split at h
      · cases h
      · cases h
        exact Date.readFirst?_valid hdate
    · obtain ⟨⟨clock, offset⟩, _, h⟩ := Option.bind_eq_some_iff.mp h
      dsimp only at h
      split at h
      · cases h
        exact Date.readFirst?_valid hdate
      · cases h

end RecordGraph.DateTime
