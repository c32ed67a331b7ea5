import RecordGraph.Filter.Parser
import RecordGraph.Proofs.Failure.Success

/-!
# Operands that are denied

A clause and the clause that denies its operand try the readings of the operand in different orders. They refuse
the same operands, and what they leave for any other one is opposed: a comparison and its denial, a list that is
to hold the value and one that is not, texts of which one is found and of which none is, a range and what lies
outside.
-/

namespace RecordGraph

/-! ## Numbers that are plain -/

theorem dropStart?_eq_some {start text rest : List Char} (h : dropStart? start text = some rest) : text = start ++ rest := by
  induction start generalizing text with
  | nil =>
      cases h
      rfl
  | cons first start ih =>
      cases text with
      | nil => cases h
      | cons ch text =>
          rw [dropStart?] at h
          split at h
          · rename_i hfirst
            rw [ih h, hfirst, List.cons_append]
          · cases h

theorem isBlank_of_isDecimal {ch : Char} (h : isDecimal ch = true) : isBlank ch = false := by
  -- the blanks beyond ASCII lie between the runs of digits
  have hzeros : ∀ z ∈ decimalZeros, z = 48 ∨ 160 < z ∧ z + 10 ≤ 5760 ∨ 5760 < z ∧ z + 10 ≤ 8192 ∨ 12288 < z := by
    decide
  rw [Bool.eq_false_iff]
  intro hblank
  simp only [isBlank, Bool.or_eq_true, Bool.and_eq_true, decide_eq_true_eq, beq_iff_eq] at hblank
  unfold isDecimal decimalValue? at h
  dsimp only at h
  split at h
  · split at h
    · omega
    · cases h
  · obtain ⟨z, hfind, _⟩ := Option.map_eq_some_iff.mp (Option.isSome_iff_exists.mp h).choose_spec
    have hz := hzeros z (List.mem_of_find?_eq_some hfind)
    have hrange := List.find?_some hfind
    simp only [decide_eq_true_eq] at hrange
    omega

theorem ne_of_isDecimal {ch other : Char} (h : isDecimal ch = true) (hother : isDecimal other = false) : ch ≠ other := by
  rintro rfl
  rw [h] at hother
  cases hother

/-- A digit is neither a blank nor a sign. -/
theorem spanSign_of_isDecimal {ch : Char} {text : List Char} (h : isDecimal ch = true) :
    spanSign (trimStart (ch :: text)) = (false, ch :: text) := by
  have hminus : ch ≠ '-' := ne_of_isDecimal h (by decide)
  have hplus : ch ≠ '+' := ne_of_isDecimal h (by decide)
  rw [trimStart, List.dropWhile_cons_of_neg (by simp [isBlank_of_isDecimal h])]
  unfold spanSign
  split <;> simp_all

theorem spanNumeral_of_digits {text rest : List Char} {d : Nat} {ds : List Nat} (h : spanDigits text = (d :: ds, rest)) :
    (spanNumeral text).isSome = true := by
  simp only [spanNumeral, h]
  simp

namespace Operand

variable {cs rest start stop : List Char}

theorem spanDigits_of_afterDigits? (h : afterDigits? cs = some rest) : ∃ d ds, spanDigits cs = (d :: ds, rest) := by
  unfold afterDigits? at h
  split at h
  · cases h
  · rename_i digits after hne hspan
    cases h
    cases digits with
    | nil => exact absurd rfl hne
    | cons d ds => exact ⟨d, ds, hspan⟩

theorem isDecimal_of_spanDigits {ch : Char} {d : Nat} {ds : List Nat} (h : spanDigits (ch :: cs) = (d :: ds, rest)) :
    isDecimal ch = true := by
  unfold spanDigits at h
  unfold isDecimal
  split at h
  · rename_i hvalue
    rw [hvalue]
    rfl
  · cases h

theorem digits_of_plain (h : isPlainNumber cs = true) :
    ∃ d ds after, spanDigits ((after? "-" cs).getD cs) = (d :: ds, after) := by
  unfold isPlainNumber at h
  dsimp only at h
  split at h
  · cases h
  · rename_i hafter
    obtain ⟨d, ds, hspan⟩ := spanDigits_of_afterDigits? hafter
    exact ⟨d, ds, _, hspan⟩
  · rename_i hafter
    obtain ⟨d, ds, hspan⟩ := spanDigits_of_afterDigits? hafter
    exact ⟨d, ds, _, hspan⟩

/-- A number in plain digits is a minus before digits, or starts with a digit. -/
theorem head_of_plain (h : isPlainNumber cs = true) :
    ∃ ch rest, cs = ch :: rest ∧ (ch = '-' ∨ isDecimal ch = true ∧ after? "-" cs = none) := by
  obtain ⟨d, ds, after, hspan⟩ := digits_of_plain h
  cases cs with
  | nil => cases hspan
  | cons ch cs =>
      refine ⟨ch, cs, rfl, ?_⟩
      by_cases hminus : ch = '-'
      · exact .inl hminus
      · have hnone : after? "-" (ch :: cs) = none := if_neg (Ne.symm hminus)
        rw [hnone, Option.getD_none] at hspan
        exact .inr ⟨isDecimal_of_spanDigits hspan, hnone⟩

/-- No blank stands in front of a number in plain digits. -/
theorem margin_of_plain (h : isPlainNumber cs = true) : cs.takeWhile isBlank = [] := by
  obtain ⟨ch, rest, rfl, rfl | ⟨hch, _⟩⟩ := head_of_plain h
  · rfl
  · exact List.takeWhile_cons_of_neg (by simp [isBlank_of_isDecimal hch])

/-- A number in plain digits is a number. -/
theorem leadingNumber?_of_plain (h : isPlainNumber cs = true) : ∃ x, leadingNumber? cs = some x := by
  obtain ⟨d, ds, after, hspan⟩ := digits_of_plain h
  have hsigned : (spanSign (trimStart cs)).2 = (after? "-" cs).getD cs := by
    obtain ⟨ch, rest, rfl, rfl | ⟨hch, hnone⟩⟩ := head_of_plain h
    · rfl
    · rw [hnone, Option.getD_none, spanSign_of_isDecimal hch]
  obtain ⟨numeral, hnumeral⟩ := Option.isSome_iff_exists.mp (spanNumeral_of_digits (hsigned ▸ hspan))
  simp [leadingNumber?, numberPrefix?, hnumeral]

theorem startingNumber?_of_plain {x : Binary64} (h : isPlainNumber cs = true) (hx : leadingNumber? cs = some x) :
    startingNumber? cs = .ok (some x) := by
  rw [startingNumber?, hx, margin_of_plain h]
  rfl

/-! ## Ranges -/

theorem splitWord?_between (h : after? "between:" cs = some rest) :
    splitWord? momentWords cs = some (.between, rest) ∧ splitWord? numberWords cs = some (.between, rest) := by
  obtain rfl := dropStart?_eq_some h
  exact ⟨rfl, rfl⟩

theorem parts_of_range (h : range rest = .ok (start, stop)) : ∃ more, parts rest = start :: stop :: more := by
  unfold range at h
  split at h
  · rename_i hparts
    split at h
    · cases h
    · cases h
      exact ⟨_, hparts⟩
  · cases h

/-- What an operand that is no list compares a field with. -/
def compared (cs : List Char) : Except Failure Value := do
  match ← datetime? cs with
  | some condition => return .object condition
  | none =>
    match ← numeric? cs with
    | some condition => return .object condition
    | none => return text cs

/-- The ends of a range, numbers if both are plain numbers and moments otherwise. -/
def ends? (start stop : List Char) : Option (Value × Value) :=
  if isPlainNumber start && isPlainNumber stop then do
    let low ← leadingNumber? start
    let high ← leadingNumber? stop
    some (ofNumber low, ofNumber high)
  else do
    let low ← moment? start
    let high ← moment? stop
    some (.datetime low, .datetime high)

/-- A range is read as its two ends, or not at all. -/
theorem compared_between (h : after? "between:" cs = some rest) :
    (∃ failure, range rest = .error failure ∧ compared cs = .error failure) ∨
      ∃ start stop, range rest = .ok (start, stop) ∧
        ((∃ low high, ends? start stop = some (low, high) ∧
            compared cs = .ok (.object [("gte", low), ("lte", high)])) ∨
          ends? start stop = none ∧ ∃ failure, compared cs = .error failure) := by
  obtain ⟨hmoment, hnumber⟩ := splitWord?_between h
  cases hrange : range rest with
  | error failure =>
      refine .inl ⟨failure, rfl, ?_⟩
      simp only [compared, datetime?, hmoment, hrange]
      rfl
  | ok bounds =>
      obtain ⟨start, stop⟩ := bounds
      refine .inr ⟨start, stop, rfl, ?_⟩
      by_cases hplain : (isPlainNumber start && isPlainNumber stop) = true
      · obtain ⟨more, hparts⟩ := parts_of_range hrange
        obtain ⟨hstart, hstop⟩ := Bool.and_eq_true_iff.mp hplain
        obtain ⟨low, hlow⟩ := leadingNumber?_of_plain hstart
        obtain ⟨high, hhigh⟩ := leadingNumber?_of_plain hstop
        refine .inl ⟨ofNumber low, ofNumber high, by simp [ends?, hplain, hlow, hhigh], ?_⟩
        have hnone : datetime? cs = .ok none := by
          simp only [datetime?, hmoment, hrange]
          exact if_pos hplain
        have hsome : numeric? cs = .ok (some [("gte", ofNumber low), ("lte", ofNumber high)]) := by
          rw [numeric?, looksLikeNumber, hnumber, Option.isSome_some, Bool.or_true, if_pos rfl]
          simp only [number?, hnumber, hparts, List.headD_cons, List.getElem?_cons_succ, List.getElem?_cons_zero,
            Option.getD_some, startingNumber?_of_plain hstart hlow, startingNumber?_of_plain hstop hhigh]
          rfl
        simp only [compared, hnone, hsome]
        rfl
      · have hdatetime : datetime? cs = (do
            let low ← moment cs start
            return some [("gte", .datetime low), ("lte", .datetime (← moment cs stop))]) := by
          simp only [datetime?, hmoment, hrange]
          exact if_neg hplain
        cases hlow : moment? start with
        | none =>
            refine .inr ⟨by simp [ends?, hplain, hlow], ?_⟩
            simp only [compared, hdatetime, moment, hlow]
            exact ⟨_, rfl⟩
        | some low =>
            cases hhigh : moment? stop with
            | none =>
                refine .inr ⟨by simp [ends?, hplain, hlow, hhigh], ?_⟩
                simp only [compared, hdatetime, moment, hlow, hhigh]
                exact ⟨_, rfl⟩
            | some high =>
                refine .inl ⟨.datetime low, .datetime high, by simp [ends?, hplain, hlow, hhigh], ?_⟩
                simp only [compared, hdatetime, moment, hlow, hhigh]
                rfl

/-- A list is read as no moment and as no number. -/
theorem unread_of_bracketed (h : isBracketed cs = true) :
    datetime? cs = .ok none ∧ numeric? cs = .ok none := by
  cases cs with
  | nil => cases h
  | cons ch cs =>
      have hch : '[' = ch := by
        by_contra hne
        simp [isBracketed, startsWith, dropStart?, hne] at h
      subst hch
      exact ⟨rfl, rfl⟩

end Operand

namespace Filter

/-! ## What a clause and its denial leave -/

/-- The trees that a clause on a field and the denial of its operand leave. -/
inductive Opposed (name : String) : Object → Object → Prop
  | compared (v : Value) : Opposed name [(name, v)] [(name, .object [("not", v)])]
  | listed (vs : List Value) :
    Opposed name [(name, .object [("in", .list vs)])] [(name, .object [("notIn", .list vs)])]
  | alternatives {vs : List Value} (hne : vs ≠ []) :
    Opposed name [("OR", .list (textAlternatives name vs))] [("NOT", .list (textAlternatives name vs))]
  | range (low high : Value) : Opposed name [(name, .object [("gte", low), ("lte", high)])]
    [("NOT", .list [.object [("AND", .list [.object [(name, .object [("gte", low)])],
      .object [(name, .object [("lte", high)])]])]])]

variable {field : Field} {name : String} {operand rest : List Char} {tree : Object}

theorem applyOperand_compared (h : Operand.isBracketed operand = false) :
    applyOperand name operand tree = (Operand.compared operand).map fun v => Object.set name v tree := by
  unfold applyOperand Operand.compared
  cases Operand.datetime? operand with
  | error failure => rfl
  | ok moments =>
      cases moments with
      | some condition => rfl
      | none =>
          dsimp only [bind, Except.bind]
          cases Operand.numeric? operand with
          | error failure => rfl
          | ok number =>
              cases number with
              | some condition => rfl
              | none => exact if_neg (by simp [h])

theorem applyOperand_listed (h : Operand.isBracketed operand = true) :
    applyOperand name operand tree = .ok (if Operand.hasWildcard (Operand.items operand)
      then addTo "OR" (textAlternatives name (Operand.items operand)) tree
      else Object.set name (.object [("in", .list (Operand.items operand))]) tree) := by
  obtain ⟨hmoment, hnumber⟩ := Operand.unread_of_bracketed h
  unfold applyOperand
  simp only [hmoment, hnumber, h, bind, Except.bind]
  cases Operand.hasWildcard (Operand.items operand) <;> rfl

theorem applyNegated_listed (hnull : operand ≠ nullWord) (h : Operand.isBracketed operand = true) :
    applyNegated field operand tree = .ok (if Operand.hasWildcard (Operand.items operand)
      then addTo "NOT" (textAlternatives field.name (Operand.items operand)) tree
      else Object.set field.name (.object [("notIn", .list (Operand.items operand))]) tree) := by
  unfold applyNegated
  rw [if_neg hnull, if_pos h]
  cases hwild : Operand.hasWildcard (Operand.items operand) <;> simp [hwild] <;> rfl

theorem applyNegated_compared (hnull : operand ≠ nullWord) (h : Operand.isBracketed operand = false)
    (hrange : Operand.after? "between:" operand = none) : applyNegated field operand tree =
      (Operand.compared operand).map fun v => Object.set field.name (.object [("not", v)]) tree := by
  unfold applyNegated Operand.compared
  rw [if_neg hnull, if_neg (by simp [h]), hrange]
  cases Operand.datetime? operand with
  | error failure => rfl
  | ok moments =>
      cases moments with
      | some condition => rfl
      | none =>
          dsimp only [bind, Except.bind]
          cases Operand.numeric? operand with
          | error failure => rfl
          | ok number => cases number <;> rfl

theorem applyNegated_range (hnull : operand ≠ nullWord) (h : Operand.isBracketed operand = false)
    (hrange : Operand.after? "between:" operand = some rest) :
    applyNegated field operand tree = excludeRange field.name rest tree := by
  unfold applyNegated
  rw [if_neg hnull, if_neg (by simp [h]), hrange]

theorem excludeRange_ends {start stop : List Char} (h : Operand.range rest = .ok (start, stop)) :
    excludeRange name rest tree = match Operand.ends? start stop with
      | some (low, high) => .ok (addTo "NOT" [.object [("AND", .list [.object [(name, .object [("gte", low)])],
          .object [(name, .object [("lte", high)])]])]] tree)
      | none => .error (.validation "invalid_date_range"
          (some [("start", .text (.ofList start)), ("end", .text (.ofList stop))])) := by
  unfold excludeRange
  rw [h]
  rfl

/-- An operand and its denial are both refused, or leave opposed trees. -/
theorem operand_opposed (field : Field) (hnull : operand ≠ nullWord) :
    (∃ tree denied, applyOperand field.name operand [] = .ok tree ∧ applyNegated field operand [] = .ok denied ∧
        Opposed field.name tree denied) ∨
      (∃ failure, applyOperand field.name operand [] = .error failure) ∧
        ∃ failure, applyNegated field operand [] = .error failure := by
  cases hlist : Operand.isBracketed operand with
  | true =>
      rw [applyOperand_listed hlist, applyNegated_listed hnull hlist]
      refine .inl ⟨_, _, rfl, rfl, ?_⟩
      cases hwild : Operand.hasWildcard (Operand.items operand) with
      | true =>
          refine .alternatives ?_
          intro hempty
          rw [hempty] at hwild
          cases hwild
      | false => exact .listed _
  | false =>
      rw [applyOperand_compared hlist]
      cases hrange : Operand.after? "between:" operand with
      | none =>
          rw [applyNegated_compared hnull hlist hrange]
          cases Operand.compared operand with
          | error failure => exact .inr ⟨⟨_, rfl⟩, _, rfl⟩
          | ok v => exact .inl ⟨_, _, rfl, rfl, .compared v⟩
      | some rest =>
          rw [applyNegated_range hnull hlist hrange]
          rcases Operand.compared_between hrange with
            ⟨failure, hends, hfails⟩ | ⟨start, stop, hends, ⟨low, high, hread, hcompared⟩ | ⟨hread, failure, hfails⟩⟩
          · rw [hfails, excludeRange, hends]
            exact .inr ⟨⟨_, rfl⟩, _, rfl⟩
          · rw [hcompared, excludeRange_ends hends, hread]
            exact .inl ⟨_, _, rfl, rfl, .range low high⟩
          · rw [hfails, excludeRange_ends hends, hread]
            exact .inr ⟨⟨_, rfl⟩, _, rfl⟩

end Filter

end RecordGraph
