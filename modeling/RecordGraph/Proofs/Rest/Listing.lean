import RecordGraph.Proofs.Operation.JoinedIds
import RecordGraph.Proofs.Operation.Planning
import RecordGraph.Rest.Service

/-!
# Lists that are asked for over HTTP

The texts of a request for a list stand for numbers, for an id and for names. A text of digits that is no numeral is
taken for one all the same, and what comes of it is no answer of the list. Whatever else the texts are, the list ends
with a page or with a request error.
-/

namespace RecordGraph

/-! ## Integers in texts -/

open Operand (Writes)

section Numerals

variable {cs digits : List Char} {ch : Char} {d : Nat} {ds : List Nat} {n : Int}

theorem isFigure_of_isDecimal (h : isDecimal ch = true) : isFigure ch :=
  ⟨by simp [isMargin, isBlank_of_isDecimal h], ne_of_isDecimal h (by decide)⟩

theorem isFigure_of_anyDigit (h : isDigit ch = true) : isFigure ch := by
  -- the blanks beyond ASCII lie between the ranges of digits
  have hranges : ∀ r ∈ otherDigits, 160 < r.1 ∧ r.2 < 5760 ∨ 5760 < r.1 ∧ r.2 < 8192 ∨ 8287 < r.1 ∧ r.2 < 12288 ∨
      12288 < r.1 := by
    decide
  refine ⟨?_, fun hline => absurd (hline ▸ h) (by decide)⟩
  rw [isDigit, Bool.or_eq_true] at h
  rcases h with h | h
  · exact (isFigure_of_isDecimal h).1
  · obtain ⟨r, hin, hr⟩ := List.any_eq_true.mp h
    have hrange := hranges r hin
    simp only [Bool.decide_and, Bool.and_eq_true, decide_eq_true_eq] at hr
    simp [isMargin, isBlank]
    omega

theorem length_of_spanDigits (h : spanDigits cs = (ds, [])) : cs.length = ds.length := by
  obtain ⟨front, rfl, hlength, _⟩ := spanDigits_front h
  rw [List.append_nil, hlength]

/-- Decimal digits have no sign before them. -/
theorem spanSign_of_spanDigits (h : spanDigits cs = (d :: ds, [])) : spanSign cs = (false, cs) ∧
    cs.dropWhile (· == '-') = cs := by
  obtain ⟨ch, rest, rfl⟩ : ∃ ch rest, cs = ch :: rest := by
    cases cs with
    | nil => cases h
    | cons ch rest => exact ⟨ch, rest, rfl⟩
  have hch : isDecimal ch = true := Operand.isDecimal_of_spanDigits h
  have hminus : ch ≠ '-' := ne_of_isDecimal hch (by decide)
  have hplus : ch ≠ '+' := ne_of_isDecimal hch (by decide)
  constructor
  · unfold spanSign
    split <;> simp_all
  · exact List.dropWhile_cons_of_neg (by simp [hminus])

/-- Behind one minus sign or none, a text that writes an integer has decimal digits and nothing else. -/
theorem Operand.Writes.signed (h : Writes cs n) : ∃ negative d ds,
    spanSign cs = (negative, cs.dropWhile (· == '-')) ∧ spanDigits (cs.dropWhile (· == '-')) = (d :: ds, []) ∧
    n = if negative then -(digitsValue (d :: ds) : Int) else digitsValue (d :: ds) := by
  cases h with
  | @digits _ d ds h =>
      obtain ⟨hsign, hdrop⟩ := spanSign_of_spanDigits h
      exact ⟨false, d, ds, by rw [hdrop, hsign], by rw [hdrop, h], rfl⟩
  | @negative cs d ds h =>
      obtain ⟨_, hdrop⟩ := spanSign_of_spanDigits h
      have hsame : ('-' :: cs).dropWhile (· == '-') = cs := by rw [List.dropWhile_cons_of_pos rfl, hdrop]
      exact ⟨true, d, ds, by rw [hsame]; rfl, by rw [hsame, h], rfl⟩

theorem Operand.Writes.unique {m : Int} (h : Writes cs n) (h' : Writes cs m) : n = m := by
  obtain ⟨negative, d, ds, hsign, hdigits, rfl⟩ := h.signed
  obtain ⟨negative', d', ds', hsign', hdigits', rfl⟩ := h'.signed
  cases hsign.symm.trans hsign'
  cases hdigits.symm.trans hdigits'
  rfl

theorem Operand.Writes.read (h : Writes cs n) (hl : (cs.dropWhile (· == '-')).length ≤ integerDigitLimit) :
    readInteger? cs = some n := by
  have hfigures : ∀ ch ∈ cs, isFigure ch := by
    intro ch hin
    rcases h.chars ch hin with rfl | hch
    · exact ⟨rfl, by decide⟩
    · exact isFigure_of_isDecimal hch
  obtain ⟨negative, d, ds, hsign, hdigits, rfl⟩ := h.signed
  rw [length_of_spanDigits hdigits] at hl
  rw [readInteger?_signed hfigures hsign hdigits, if_neg (Nat.not_lt.mpr hl)]

/-- All digits of a text that writes an integer count as digits, and there is one. -/
theorem Operand.Writes.all_isDigit (h : Writes cs n) :
    cs.dropWhile (· == '-') ≠ [] ∧ ∀ ch ∈ cs.dropWhile (· == '-'), isDigit ch = true := by
  obtain ⟨_, d, ds, _, hdigits, _⟩ := h.signed
  refine ⟨fun hnil => ?_, fun ch hin => ?_⟩
  · rw [hnil] at hdigits
    cases hdigits
  · rw [isDigit, Operand.isDecimal_of_mem hdigits ch hin, Bool.true_or]

/-- Digits behind minus signs are read only if they write an integer. -/
theorem writes_of_readInteger? {signs : Nat} (hne : digits ≠ []) (hall : ∀ ch ∈ digits, isDigit ch = true)
    (h : readInteger? (List.replicate signs '-' ++ digits) = some n) :
    Writes (List.replicate signs '-' ++ digits) n ∧ digits.length ≤ integerDigitLimit := by
  have hfigures : ∀ ch ∈ List.replicate signs '-' ++ digits, isFigure ch := by
    intro ch hin
    rcases List.mem_append.mp hin with hin | hin
    · rw [List.eq_of_mem_replicate hin]
      exact ⟨rfl, by decide⟩
    · exact isFigure_of_anyDigit (hall ch hin)
  obtain ⟨d, ds, hspan, hl, rfl⟩ := readInteger?_some hfigures h
  cases signs with
  | zero =>
      obtain ⟨ch, rest, rfl⟩ := List.exists_cons_of_ne_nil hne
      have hch := hall ch List.mem_cons_self
      have hsign : spanSign (ch :: rest) = (false, ch :: rest) := by
        unfold spanSign
        split
        · rename_i heq
          cases heq
          cases hch
        · rename_i heq
          cases heq
          cases hch
        · rfl
      simp only [List.replicate_zero, List.nil_append, hsign] at hspan ⊢
      exact ⟨.digits hspan, (length_of_spanDigits hspan).symm ▸ hl⟩
  | succ signs =>
      cases signs with
      | zero => exact ⟨.negative hspan, (length_of_spanDigits hspan).symm ▸ hl⟩
      | succ signs =>
          -- behind the first sign there is another one, and no digit
          cases hspan

end Numerals

namespace Rest

/-! ## Texts that stand for integers -/

/-- Digits in a text are not taken for an integer by mistake: if there is nothing else among them, the whole text writes
an integer, and they are no more than a numeral may have. -/
def Genuine (digits whole : List Char) : Prop :=
  digits ≠ [] → (∀ ch ∈ digits, isDigit ch = true) → (∃ n, Writes whole n) ∧ digits.length ≤ integerDigitLimit

/-- The same of a parameter, which may have blanks around it and minus signs before its digits. -/
def GenuineParam (text : String) : Prop := Genuine ((trim text.toList).dropWhile (· == '-')) (trim text.toList)

/-- The value that the text of a parameter stands for. -/
inductive Stands : Option String → Value → Prop
  | missing : Stands none .null
  | integer {s : String} {n : Int} (h : Writes (trim s.toList) n) : Stands (some s) (.int n)
  | text {s : String} (h : ∀ n, ¬ Writes (trim s.toList) n) : Stands (some s) (.text s)

theorem genuine_writes {digits whole : List Char} (h : ∃ n, Writes whole n) (hl : digits.length ≤ integerDigitLimit) :
    Genuine digits whole := fun _ _ => ⟨h, hl⟩

theorem Stands.of_writes {s : String} {n : Int} {v : Value} (h : Stands (some s) v) (hn : Writes (trim s.toList) n) :
    v = .int n := by
  cases h with
  | integer h => rw [h.unique hn]
  | text h => exact absurd hn (h n)

variable {digits whole : List Char} {n : Int}

/-- Digits that are nothing but digits are read, and anything else is a text. -/
theorem digitsOrText_genuine (hlen : (whole.dropWhile (· == '-')).length ≤ digits.length) (h : Genuine digits whole) :
    (∃ n, Writes whole n ∧ digitsOrText digits whole = .ok (.int n)) ∨
      ¬ (digits ≠ [] ∧ ∀ ch ∈ digits, isDigit ch = true) ∧ digitsOrText digits whole = .ok (.text (.ofList whole)) := by
  have htest : (!digits.isEmpty && digits.all isDigit) = true ↔ digits ≠ [] ∧ ∀ ch ∈ digits, isDigit ch = true := by
    simp
  rw [digitsOrText, ← htest]
  by_cases hdigits : (!digits.isEmpty && digits.all isDigit) = true
  · obtain ⟨hne, hall⟩ := htest.mp hdigits
    obtain ⟨⟨n, hn⟩, hlimit⟩ := h hne hall
    rw [if_pos hdigits, hn.read (hlen.trans hlimit)]
    exact .inl ⟨n, hn, rfl⟩
  · rw [if_neg hdigits]
    exact .inr ⟨hdigits, rfl⟩

theorem integerParam_stands {param : Option String} (h : ∀ s, param = some s → GenuineParam s) :
    ∃ v, integerParam param = .ok v ∧ Stands param v := by
  cases param with
  | none => exact ⟨.null, rfl, .missing⟩
  | some s =>
      rcases digitsOrText_genuine (Nat.le_refl _) (h s rfl) with ⟨n, hn, hread⟩ | ⟨hno, hread⟩
      · exact ⟨.int n, by rw [integerParam]; simp only [hread]; rfl, .integer hn⟩
      · exact ⟨.text s, by rw [integerParam]; simp only [hread]; rfl, .text fun n hn => hno hn.all_isDigit⟩

/-- An id is used as it is written, or as the integer that it writes. -/
theorem principalOf_id {headers : List (String × String)}
    (h : ∀ id, header? headers "x-user-id" = some id → Genuine id.toList id.toList) :
    ∃ p, principalOf headers = .ok p ∧ ∀ id, header? headers "x-user-id" = some id →
      p.id = .text id ∨ ∃ n, Writes id.toList n ∧ p.id = .int n := by
  unfold principalOf
  cases hid : header? headers "x-user-id" with
  | none => exact ⟨_, rfl, nofun⟩
  | some id =>
      rcases digitsOrText_genuine (List.length_dropWhile_le _ _) (h id hid) with ⟨n, hn, hread⟩ | ⟨_, hread⟩
      · exact ⟨_, by simp only [hread]; rfl, by rintro _ ⟨⟩; exact .inr ⟨n, hn, rfl⟩⟩
      · exact ⟨_, by simp only [hread]; rfl, by rintro _ ⟨⟩; exact .inl (congrArg Value.text (String.ofList_toList ..))⟩

/-! ## Digits that are mistaken -/

theorem signs_append (cs : List Char) : ∃ signs, cs = List.replicate signs '-' ++ cs.dropWhile (· == '-') := by
  refine ⟨(cs.takeWhile (· == '-')).length, ?_⟩
  have hsigns : cs.takeWhile (· == '-') = List.replicate (cs.takeWhile (· == '-')).length '-' :=
    List.eq_replicate_iff.mpr ⟨rfl, fun ch hin => by simpa using List.mem_takeWhile_imp hin⟩
  exact List.takeWhile_append_dropWhile.symm.trans (congrArg (· ++ _) hsigns)

theorem digitsOrText_mistaken {signs : Nat} (hwhole : whole = List.replicate signs '-' ++ digits)
    (h : ¬ Genuine digits whole) : digitsOrText digits whole = .error .illFormed := by
  rw [Genuine, Classical.not_imp, Classical.not_imp] at h
  obtain ⟨hne, hall, h⟩ := h
  have htest : (!digits.isEmpty && digits.all isDigit) = true := by
    simpa using ⟨hne, hall⟩
  rw [digitsOrText, if_pos htest]
  cases hread : readInteger? whole with
  | none => rfl
  | some n =>
      subst hwhole
      obtain ⟨hn, hl⟩ := writes_of_readInteger? hne hall hread
      exact absurd ⟨⟨n, hn⟩, hl⟩ h

theorem integerParam_mistaken {text : String} (h : ¬ GenuineParam text) :
    integerParam (some text) = .error .illFormed := by
  obtain ⟨signs, hsigns⟩ := signs_append (trim text.toList)
  rw [integerParam]
  simp only [digitsOrText_mistaken hsigns h]
  rfl

theorem integerParam_outcome (param : Option String) :
    (∃ v, integerParam param = .ok v) ∨ integerParam param = .error .illFormed := by
  cases param with
  | none => exact .inl ⟨.null, rfl⟩
  | some text =>
      by_cases h : GenuineParam text
      · obtain ⟨v, hv, _⟩ := integerParam_stands fun s hs => Option.some.inj hs ▸ h
        exact .inl ⟨v, hv⟩
      · exact .inr (integerParam_mistaken h)

theorem principalOf_mistaken {headers : List (String × String)} {id : String}
    (hid : header? headers "x-user-id" = some id) (h : ¬ Genuine id.toList id.toList) :
    principalOf headers = .error .illFormed := by
  have hwhole : id.toList = List.replicate 0 '-' ++ id.toList := rfl
  simp only [principalOf, hid, digitsOrText_mistaken hwhole h]
  rfl

/-! ## Responses -/

/-- The request for a list that the texts of a request come to. -/
def Request.listing (r : Request) (limit offset : Value) : Engine.ListRequest :=
  { query := r.param "q", includes := r.param "include", fields := r.param "fields", limit
    offset := if offset.isPresent then offset else .int 0
    sortBy := r.param "sortBy", sortOrder := .text ((r.param? "sortOrder").getD "asc") }

/-- The request with one more parameter, which counts for all of its name. -/
def Request.giving (r : Request) (name text : String) : Request := { r with params := r.params ++ [(name, text)] }

theorem Request.param?_giving {r : Request} {name text other : String} :
    (r.giving name text).param? other = if other = name then some text else r.param? other := by
  simp only [param?, giving, List.reverse_append, List.reverse_singleton, List.singleton_append, List.lookup_cons]
  by_cases hname : other = name
  · simp [hname]
  · rw [if_neg hname, beq_false_of_ne hname]

theorem Request.listing_giving {r : Request} {text : String} {limit offset : Value} :
    (r.giving "offset" text).listing limit offset = r.listing limit offset := by
  simp [listing, param, param?_giving]

theorem Request.param_wording {r : Request} {name : String} : (r.param name).IsWording := by
  rw [param]
  cases r.param? name with
  | none => exact .inl rfl
  | some text => exact .inr ⟨text, rfl⟩

theorem Request.listing_worded {r : Request} {schema : Schema} {entity : String} {limit offset : Value}
    (hq : ∀ text, r.param? "q" = some text → Validating (Filter.parse schema entity text.toList)) :
    (r.listing limit offset).IsWorded schema entity where
  options := rfl
  includes := param_wording
  fields := param_wording
  sortBy := param_wording
  query text htext := by
    refine hq text ?_
    cases hparam : r.param? "q" with
    | none =>
        simp [listing, param, hparam] at htext
    | some given =>
        simp only [listing, param, hparam, Option.map_some, Option.getD_some, Value.text.injEq] at htext
        rw [htext]

theorem skip_listed {offset : Value} :
    Paging.skip (if offset.isPresent then offset else .int 0) = Paging.skip offset := by
  split
  · rfl
  · rename_i habsent
    cases offset with
    | int n =>
        have hzero : n = 0 := by simpa [Value.isPresent] using habsent
        rw [hzero]
    | _ => rfl

namespace Service

variable {σ : Type} {s : Service σ} {r : Request} {entity : String} {p : Principal} {limit offset : Value}

theorem answer_run {status : Int} {show_ : Outcome → Except Failure Value} {act : Act σ Outcome} {t : σ} :
    (s.answer status show_ act).runOn t = match act.runOn t with
      | (.ok outcome, u) => match show_ outcome with
        | .ok body => (.ok ⟨status, body⟩, u)
        | .error failure => (.ok (s.failed failure), u)
      | (.error failure, u) => (.ok (s.failed failure), u) := by
  rw [answer, Act.runOn_bind, Act.runOn_attempt, Act.runOn_bind]
  rcases act.runOn t with ⟨failure | outcome, u⟩
  · rfl
  · simp only [Act.runOn_ofExcept]
    cases show_ outcome <;> rfl

theorem respond_known (hroute : route s.base r.method r.path = .ok (.list entity))
    (hknown : s.engine.schema.hasEntity entity = true) (hp : principalOf r.headers = .ok p) :
    s.respond r = s.answer 200 pageOf (do
      let limit ← integerParam (r.param? "limit")
      let offset ← integerParam (r.param? "offset")
      s.engine.getMany entity (.principal p) (r.listing limit offset)) := by
  simp only [respond, hroute, entityOf, hknown, hp, serve]
  rfl

theorem respond_list (hroute : route s.base r.method r.path = .ok (.list entity))
    (hknown : s.engine.schema.hasEntity entity = true) (hp : principalOf r.headers = .ok p)
    (hlimit : integerParam (r.param? "limit") = .ok limit) (hoffset : integerParam (r.param? "offset") = .ok offset) :
    s.respond r = s.answer 200 pageOf (s.engine.getMany entity (.principal p) (r.listing limit offset)) := by
  rw [respond_known hroute hknown hp, hlimit, hoffset]
  rfl

/-- Digits that are mistaken for an integer end the list as what nobody expected. -/
theorem list_mistaken (hroute : route s.base r.method r.path = .ok (.list entity))
    (hknown : s.engine.schema.hasEntity entity = true)
    (h : (∃ id, header? r.headers "x-user-id" = some id ∧ ¬ Genuine id.toList id.toList) ∨
      ∃ name text, (name = "limit" ∨ name = "offset") ∧ r.param? name = some text ∧ ¬ GenuineParam text) (t : σ) :
    (s.failed .illFormed).status = 500 ∧ (s.respond r).runOn t = (.ok (s.failed .illFormed), t) := by
  refine ⟨rfl, ?_⟩
  by_cases hid : ∀ id, header? r.headers "x-user-id" = some id → Genuine id.toList id.toList
  · obtain ⟨p, hp, _⟩ := principalOf_id hid
    rw [respond_known hroute hknown hp, answer_run]
    rcases h with ⟨id, hheader, hmistaken⟩ | ⟨name, text, hname, hparam, hmistaken⟩
    · exact absurd (hid id hheader) hmistaken
    · have hread := integerParam_mistaken hmistaken
      rcases hname with rfl | rfl
      · rw [hparam, hread]
        rfl
      · rw [hparam, hread]
        rcases integerParam_outcome (r.param? "limit") with ⟨limit, hlimit⟩ | hlimit <;> rw [hlimit] <;> rfl
  · obtain ⟨id, hid⟩ := not_forall.mp hid
    obtain ⟨hheader, hmistaken⟩ := Classical.not_imp.mp hid
    simp only [respond, hroute, entityOf, hknown, principalOf_mistaken hheader hmistaken]
    rfl

/-- The response to a request tells how an operation ended: with a page from an offset on, or with a request error. -/
def Tells (s : Service σ) (r : Request) (act : Act σ Outcome) (skip : Int) (t : σ) : Prop :=
  (∃ page u, act.runOn t = (.ok (.page page), u) ∧ page.skip = skip ∧
    (s.respond r).runOn t = (.ok ⟨200, .object page.envelope⟩, u)) ∨
  ∃ err u, act.runOn t = (.error (.request err), u) ∧
    (s.respond r).runOn t = (.ok ⟨err.status, .object err.body⟩, u)

/-- Where no digits are mistaken for an integer, the list answers with a page or with a request error. A limit that is
no positive integer is refused, an offset that is no natural number counts as zero, and an id that is no integer is used
as the text that it is. -/
theorem list_answered (hroute : route s.base r.method r.path = .ok (.list entity))
    (hknown : s.engine.schema.hasEntity entity = true)
    (hid : ∀ id, header? r.headers "x-user-id" = some id → Genuine id.toList id.toList)
    (hlimit : ∀ text, r.param? "limit" = some text → GenuineParam text)
    (hoffset : ∀ text, r.param? "offset" = some text → GenuineParam text) :
    ∃ p limit offset, principalOf r.headers = .ok p ∧ Stands (r.param? "limit") limit ∧
      Stands (r.param? "offset") offset ∧
      (∀ id, header? r.headers "x-user-id" = some id → p.id = .text id ∨ ∃ n, Writes id.toList n ∧ p.id = .int n) ∧
      (∀ text, r.param? "limit" = some text → (∀ n, Writes (trim text.toList) n → n ≤ 0) → ∀ t,
        (s.respond r).runOn t = (.ok ⟨400, .object [("status_code", .int 400), ("message", .text "invalid_limit"),
          ("data", .object [("limit", limit)])]⟩, t)) ∧
      (∀ text, r.param? "offset" = some text → (∀ n, Writes (trim text.toList) n → n < 0) →
        s.respond r = s.respond (r.giving "offset" "0")) ∧
      ∀ kept, s.engine.Listable kept entity (.principal p) (r.listing limit offset) →
        (∀ text, r.param? "q" = some text → Validating (Filter.parse s.engine.schema entity text.toList)) →
        ∀ t, kept t →
          s.Tells r (s.engine.getMany entity (.principal p) (r.listing limit offset)) (Paging.skip offset) t := by
  obtain ⟨p, hp, hpid⟩ := principalOf_id hid
  obtain ⟨limit, hl, hstands⟩ := integerParam_stands hlimit
  obtain ⟨offset, ho, hostands⟩ := integerParam_stands hoffset
  have hrespond := respond_list hroute hknown hp hl ho
  refine ⟨p, limit, offset, hp, hstands, hostands, hpid, fun text htext hn t => ?_, fun text htext hn => ?_,
    fun kept h hq t ht => ?_⟩
  · rw [htext] at hstands
    have hgiven : limit.isNull = false := by cases hstands <;> rfl
    have hsmall : ∀ n, limit = .int n → n ≤ 0 := by
      rintro n rfl
      cases hstands with
      | integer h => exact hn n h
    rw [hrespond, answer_run, Engine.getMany_limit_refused rfl hgiven hsmall]
    rfl
  · rw [htext] at hostands
    have hzero : Paging.skip offset = 0 := by
      cases hostands with
      | integer h => exact max_eq_right (hn _ h).le
      | text _ => rfl
    have hgiving := respond_list (s := s) (r := r.giving "offset" "0") hroute hknown hp
      (by rw [Request.param?_giving]; exact hl) (by rw [Request.param?_giving]; rfl)
    rw [hrespond, hgiving, Request.listing_giving]
    exact congrArg (s.answer 200 pageOf) (Engine.getMany_offset (q := r.listing limit offset) (skip_listed.trans hzero))
  · rw [Tells, hrespond, answer_run]
    rcases (Engine.getMany_ends h (Request.listing_worded hq)).outcome ht with
      ⟨_, u, hrun, page, rfl, hskip⟩ | ⟨_, u, hrun, err, rfl⟩
    · rw [hrun]
      exact .inl ⟨page, u, rfl, hskip.trans skip_listed, rfl⟩
    · rw [hrun]
      exact .inr ⟨err, u, rfl, rfl⟩

/-! The comments of a talk, over HTTP. -/

def talkService : Service Database := { engine := Engine.talkEngine, name := "talk" }

/-- The comments from the second one on, the last first, for a user with a number. -/
def talkRequest : Request :=
  { method := "GET", path := "/Comment", params := [("limit", " 7 "), ("offset", "1"), ("sortOrder", "desc")]
    headers := [("X-User-Id", "5")] }

theorem readerRules_answer : Catalog.readerRules.Answer := by
  refine Rules.answer_of_all fun kv hin => ?_
  rcases List.mem_pair.mp hin with rfl | rfl
  · refine ⟨fun action ask hask p => ?_, nofun, ?_, ?_⟩
    · cases action <;> cases hask
    · rintro _ ⟨⟩ p
      exact .ok
    · rintro _ ⟨⟩ p items ⟨⟩
      decide
  · refine ⟨fun action ask hask p => ?_, nofun, nofun, nofun⟩
    cases action <;> cases hask
    exact .ok

theorem talk_listable {p : Principal} : talkService.engine.Listable (· = Engine.talkDatabase) "Comment" (.principal p)
    (talkRequest.listing (.int 7) (.int 1)) where
  linked := Schema.linked_of_all rfl
  known := ⟨_, rfl⟩
  rules := readerRules_answer
  hooks := Registry.passesOn_none rfl
  storage take path plan htake hpath hplan := by
    have hsize : talkService.engine.pageSize (.int 7) = .ok 2 := rfl
    have hsorted : talkService.engine.sortPath "Comment" .null = .ok "id" := rfl
    obtain rfl := Except.ok.inj (htake.symm.trans hsize)
    obtain rfl := Except.ok.inj (hpath.symm.trans hsorted)
    have hplanned : talkService.engine.listPlan "Comment" (.principal p)
        ((talkRequest.listing (.int 7) (.int 1)).settled 2 "id") =
          .ok { Engine.talkPlan with take := some 2, skip := some 1 } := rfl
    obtain rfl := Except.ok.inj (hplan.symm.trans hplanned)
    rintro _ rfl
    have hlength : 1 ≤ (Engine.talkListing.listed Engine.talkPlan).length := by cbv
    obtain ⟨t, ht, hrun⟩ := Engine.listWork_run Engine.talkEngine_lists hlength rfl
    have hwork : (talkService.engine.listWork "Comment"
        { Engine.talkPlan with take := some 2, skip := some 1 }).runOn Engine.talkDatabase = _ := hrun
    rw [hwork]
    exact ⟨ht, trivial⟩

theorem talk_page (p : Principal) : ∃ t, (talkService.engine.getMany "Comment" (.principal p)
    (talkRequest.listing (.int 7) (.int 1))).runOn Engine.talkDatabase =
      (.ok (.page (Engine.talkListing.page Engine.talkPlan 2 1)), t) := by
  have hsteady : Engine.talkEngine.hooks.Steady (· = Engine.talkDatabase) id "Comment" := Registry.steady_none rfl
  have hedited : Engine.talkEngine.edited "Comment" (.principal p) id Engine.talkRequest =
      .ok { Engine.talkRequest with sortBy := .text "id" } := rfl
  have hplan : Engine.talkEngine.wholePlan "Comment" (.principal p) { Engine.talkRequest with sortBy := .text "id" } =
      .ok Engine.talkPlan := rfl
  have hsize : ((2 : Nat) : Int) = min 7 Engine.talkEngine.settings.resultLimit := by decide
  have hlength : 1 ≤ (Engine.talkListing.listed Engine.talkPlan).length := by cbv
  obtain ⟨t, _, hpage⟩ := Engine.getMany_page (by decide) hsteady hedited hplan (by decide) hsize
    Engine.talkEngine_lists hlength rfl
  exact ⟨t, hpage⟩

/-- The second and the third of the approved comments. -/
theorem talkComments_answered :
    route talkService.base talkRequest.method talkRequest.path = .ok (.list "Comment") ∧
    talkService.engine.schema.hasEntity "Comment" = true ∧
    (∀ id, header? talkRequest.headers "x-user-id" = some id → Genuine id.toList id.toList) ∧
    (∀ text, talkRequest.param? "limit" = some text → GenuineParam text) ∧
    (∀ text, talkRequest.param? "offset" = some text → GenuineParam text) ∧
    ∃ p, principalOf talkRequest.headers = .ok p ∧ p.id = .int 5 ∧
      talkService.engine.Listable (· = Engine.talkDatabase) "Comment" (.principal p)
        (talkRequest.listing (.int 7) (.int 1)) ∧
      (∀ text, talkRequest.param? "q" = some text →
        Validating (Filter.parse talkService.engine.schema "Comment" text.toList)) ∧
      ∃ (page : Page) (u : Database), page.skip = 1 ∧ page.records.length = 2 ∧
        (talkService.respond talkRequest).runOn Engine.talkDatabase = (.ok ⟨200, .object page.envelope⟩, u) := by
  have hroute : route talkService.base talkRequest.method talkRequest.path = .ok (.list "Comment") := by decide
  have hknown : talkService.engine.schema.hasEntity "Comment" = true := by decide
  have hid : ∀ id, header? talkRequest.headers "x-user-id" = some id → Genuine id.toList id.toList := by
    rintro _ ⟨⟩
    exact genuine_writes ⟨_, .digits rfl⟩ (by decide)
  have hlimit : ∀ text, talkRequest.param? "limit" = some text → GenuineParam text := by
    rintro _ ⟨⟩
    exact genuine_writes ⟨_, .digits rfl⟩ (by decide)
  have hoffset : ∀ text, talkRequest.param? "offset" = some text → GenuineParam text := by
    rintro _ ⟨⟩
    exact genuine_writes ⟨_, .digits rfl⟩ (by decide)
  refine ⟨hroute, hknown, hid, hlimit, hoffset, ?_⟩
  obtain ⟨p, limit, offset, hp, hl, ho, hpid, _, _, hends⟩ :=
    list_answered (s := talkService) hroute hknown hid hlimit hoffset
  have hfive : principalOf talkRequest.headers = .ok { id := .int 5 } := rfl
  obtain rfl := Except.ok.inj (hfive.symm.trans hp)
  have hseven : Writes (trim " 7 ".toList) 7 := @Writes.digits _ 7 [] rfl
  have hone : Writes (trim "1".toList) 1 := @Writes.digits _ 1 [] rfl
  obtain rfl : limit = .int 7 := hl.of_writes hseven
  obtain rfl : offset = .int 1 := ho.of_writes hone
  have hq : ∀ text, talkRequest.param? "q" = some text →
      Validating (Filter.parse talkService.engine.schema "Comment" text.toList) := nofun
  refine ⟨_, hp, rfl, talk_listable, hq, ?_⟩
  obtain ⟨t, hpage⟩ := talk_page { id := .int 5 }
  rcases hends _ talk_listable hq _ rfl with ⟨page, u, hrun, hskip, hrespond⟩ | ⟨err, u, hrun, _⟩
  · refine ⟨page, u, hskip, ?_, hrespond⟩
    cases hpage.symm.trans hrun
    cbv
  · cases hpage.symm.trans hrun

/-- A limit behind two minus signs is no integer and is not refused as one. -/
theorem signs_mistaken :
    (∀ n, ¬ Writes (trim "--5".toList) n) ∧
    (talkService.respond { talkRequest with params := [("limit", "--5")] }).runOn Engine.talkDatabase =
      (.ok (talkService.failed .illFormed), Engine.talkDatabase) ∧
    (talkService.failed .illFormed).status = 500 := by
  have htrim : trim "--5".toList = ['-', '-', '5'] := by decide
  have hno : ∀ n, ¬ Writes (trim "--5".toList) n := by
    rw [htrim]
    intro n h
    cases h with
    | digits h => cases h
    | negative h => cases h
  have hmistaken : ¬ GenuineParam "--5" := by
    intro h
    have hdrop : (trim "--5".toList).dropWhile (· == '-') = ['5'] := by decide
    rw [GenuineParam, hdrop] at h
    have hdigit : ∀ ch ∈ ['5'], isDigit ch = true := List.forall_mem_singleton.mpr rfl
    obtain ⟨⟨n, hn⟩, _⟩ := h (by simp) hdigit
    exact hno n hn
  have hroute : route talkService.base "GET" "/Comment" = .ok (.list "Comment") := by decide
  have hknown : talkService.engine.schema.hasEntity "Comment" = true := by decide
  obtain ⟨hstatus, hrun⟩ := list_mistaken (s := talkService)
    (r := { talkRequest with params := [("limit", "--5")] }) hroute hknown
    (.inr ⟨"limit", "--5", .inl rfl, rfl, hmistaken⟩) Engine.talkDatabase
  exact ⟨hno, hrun, hstatus⟩

end Service

end Rest

end RecordGraph
