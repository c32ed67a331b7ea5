import RecordGraph.Proofs.Failure.Refusal
import RecordGraph.Proofs.Filter.Clauses
import RecordGraph.Proofs.Filter.Opposition
import RecordGraph.Proofs.Relational.Finding
import RecordGraph.Proofs.Schema.Names
import RecordGraph.Proofs.Text.Splitting
import RecordGraph.Proofs.Time.Calendar

/-!
# Filter texts that are read or refused

A filter text is read as a tree, or it is refused as invalid. There are exceptions: an operand asks for the last day
of the calendar, or has a number behind a blank that none stands behind; a path goes on from a truth value, or through
a name that has a meaning of its own in trees.
-/

namespace RecordGraph

/-- Some entity has a field or a relation with a name. -/
def Schema.Declares (s : Schema) (name : String) : Prop := ∃ entity e, s.entity entity = .ok e ∧ e.Declares name

/-! ## Operands -/

namespace Operand

variable {cs whole rest : List Char} {t : DateTime} {b : Bool}

/-- No blank that a numeral cannot stand behind is in front of a text. -/
def isClear (cs : List Char) : Bool := (cs.takeWhile isBlank).all isMargin

/-- If an operand asks for a day, it is not the last one. -/
def hasNextDay (cs : List Char) : Bool :=
  match splitWord? momentWords cs with
  | some (.on, rest) => (moment? rest).all fun t => t.date != Date.last
  | _ => true

/-- If an operand is compared as a number, the number can be read. -/
def hasClearNumber (cs : List Char) : Bool :=
  match splitWord? numberWords cs with
  | some (.compare _, rest) => (leadingNumber? rest).isNone || isClear rest
  | some (.between, _) => true
  | none => !isNumber cs || isClear cs

/-- An operand that is read or refused. -/
def Legible (cs : List Char) : Prop := hasNextDay cs = true ∧ hasClearNumber cs = true

instance (cs : List Char) : Decidable (Legible cs) := inferInstanceAs (Decidable (_ ∧ _))

theorem moment?_valid (h : moment? cs = some t) : t.date.IsValid := by
  unfold moment? at h
  dsimp only at h
  split at h
  · exact DateTime.read?_valid h
  · exact DateTime.read?_valid h

theorem moment_ok (h : moment whole cs = .ok t) : moment? cs = some t := by
  unfold moment at h
  split at h
  · cases h
    assumption
  · cases h

theorem moment_validating : Validating (moment whole cs) := by
  unfold moment
  split
  · exact .ok
  · exact .error ⟨_, _, rfl⟩

theorem range_validating : Validating (range cs) := by
  unfold range
  split
  · split
    · exact .error ⟨_, _, rfl⟩
    · exact .ok
  · exact .error ⟨_, _, rfl⟩

theorem datetime?_validating (h : hasNextDay cs = true) : Validating (datetime? cs) := by
  unfold datetime?
  unfold hasNextDay at h
  split
  · exact .ok
  · exact moment_validating.bind fun _ _ => .ok
  · rename_i rest hword
    rw [hword] at h
    refine moment_validating.bind fun t ht => ?_
    have ht := moment_ok ht
    have hlast : t.date ≠ Date.last := by simpa [ht] using h
    obtain ⟨next, hnext⟩ := Date.addDays?_one (moment?_valid ht) hlast
    have hday : t.startOfDay.addDays? 1 = some { t.startOfDay with date := next } := by
      simp [DateTime.addDays?, DateTime.startOfDay, hnext]
    simp only [hday]
    exact .ok
  · refine range_validating.bind fun ends _ => ?_
    dsimp only
    split
    · exact .ok
    · exact moment_validating.bind fun _ _ => moment_validating.bind fun _ _ => .ok

theorem startingNumber?_validating (h : (leadingNumber? cs).isNone = true ∨ isClear cs = true) :
    Validating (startingNumber? cs) := by
  unfold startingNumber?
  split
  · exact .ok
  · rename_i x hx
    have hclear : (cs.takeWhile isBlank).all isMargin = true := h.resolve_left (by simp [hx])
    rw [if_pos hclear]
    exact .ok

theorem isClear_of_mem_parts (h : cs ∈ parts whole) : isClear cs = true := by
  obtain ⟨part, _, rfl⟩ := List.mem_map.mp h
  simp [isClear, takeWhile_trim]

theorem numeric?_validating (h : hasClearNumber cs = true) : Validating (numeric? cs) := by
  unfold numeric?
  split
  · rename_i hlooks
    unfold number?
    unfold hasClearNumber at h
    split
    · rename_i rest hword
      have hstart : isClear ((parts rest).headD []) = true := by
        cases hparts : parts rest with
        | nil => rfl
        | cons part more => exact isClear_of_mem_parts (show part ∈ parts rest by simp [hparts])
      have hstop : isClear ((parts rest)[1]?.getD []) = true := by
        cases hpart : (parts rest)[1]? with
        | none => rfl
        | some part => exact isClear_of_mem_parts (List.mem_of_getElem? hpart)
      exact (startingNumber?_validating (.inr hstart)).bind fun _ _ =>
        (startingNumber?_validating (.inr hstop)).bind fun _ _ => .ok
    · rename_i operator rest hword
      rw [hword] at h
      exact (startingNumber?_validating (by simpa using h)).bind fun _ _ => .ok
    · rename_i hword
      rw [hword] at h
      have hnumber : isNumber cs = true := by simpa [looksLikeNumber, hword] using hlooks
      have hclear : isClear cs = true := by simpa [hnumber] using h
      exact (startingNumber?_validating (.inr hclear)).bind fun _ _ => .ok
  · exact .ok

theorem compared_validating (h : Legible cs) : Validating (compared cs) := by
  unfold compared
  refine (datetime?_validating h.1).bind fun moments _ => ?_
  cases moments with
  | some condition => exact .ok
  | none =>
      refine (numeric?_validating h.2).bind fun number _ => ?_
      cases number with
      | some condition => exact .ok
      | none => exact .ok

/-- The words for truth values. -/
def truths : List (List Char) := ["true".toList, "false".toList]

theorem text_truth (h : text cs = .bool b) : cs ∈ truths := by
  unfold text at h
  dsimp only at h
  split at h
  · rename_i htrue
    exact htrue ▸ List.mem_cons_self
  split at h
  · rename_i hfalse
    exact hfalse ▸ by simp [truths]
  · repeat' split at h
    all_goals cases h

theorem compared_truth (h : compared cs = .ok (.bool b)) : cs ∈ truths := by
  obtain ⟨moments, _, h⟩ := bind_ok_iff.mp h
  cases moments with
  | some condition => cases h
  | none =>
      obtain ⟨number, _, h⟩ := bind_ok_iff.mp h
      cases number with
      | some condition => cases h
      | none => exact text_truth (Except.ok.inj h)

end Operand

namespace Filter

variable {s : Schema} {e : Entity} {field : Field} {root entity name : String} {operand : List Char} {tree next : Object}
  {path later : List String} {change : String → Object → Except Failure Object}

/-! ## Clauses -/

theorem excludeRange_validating : Validating (excludeRange name operand tree) := by
  unfold excludeRange
  refine Operand.range_validating.bind fun ends _ => ?_
  dsimp only
  split
  · exact .ok
  · exact .error ⟨_, _, rfl⟩

theorem applyOperand_validating (h : Operand.Legible operand) : Validating (applyOperand name operand tree) := by
  cases hlist : Operand.isBracketed operand with
  | true => exact .of_ok (applyOperand_listed hlist)
  | false =>
      rw [applyOperand_compared hlist]
      exact (Operand.compared_validating h).map

theorem applyNegated_validating (h : Operand.Legible operand) : Validating (applyNegated field operand tree) := by
  by_cases hnull : operand = nullWord
  · unfold applyNegated
    simp only [if_pos hnull]
    split
    · exact .ok
    · split
      · exact .ok
      · exact .ok
  · cases hlist : Operand.isBracketed operand with
    | true => exact .of_ok (applyNegated_listed hnull hlist)
    | false =>
        cases hrange : Operand.after? "between:" operand with
        | none =>
            rw [applyNegated_compared hnull hlist hrange]
            exact (Operand.compared_validating h).map
        | some rest =>
            rw [applyNegated_range hnull hlist hrange]
            exact excludeRange_validating

/-- The operand of a clause, and what it denies, are read or refused. -/
def Legible (operand : List Char) : Prop :=
  Operand.Legible operand ∧ ∀ denied, Operand.after? "not:" operand = some denied → Operand.Legible denied

theorem applyClause_validating (he : s.entity entity = .ok e) (h : Legible operand) :
    Validating (applyClause s entity name operand tree) := by
  unfold applyClause
  simp only [he]
  refine FailsOnly.bind (x := Except.ok e) .ok fun e' _ => ?_
  cases e'.field? name with
  | none => exact .error ⟨_, _, rfl⟩
  | some field =>
      dsimp only
      split
      · split
        · exact .ok
        · split
          · exact .error ⟨_, _, rfl⟩
          · exact .ok
      · cases hnot : Operand.after? "not:" operand with
        | some denied => exact applyNegated_validating (h.2 denied hnot)
        | none =>
            dsimp only
            split
            · exact .ok
            · exact applyOperand_validating h.1

theorem applyNegated_untrue {b : Bool} (hnext : applyNegated field operand [] = .ok next) :
    Object.get? field.name next ≠ some (.bool b) := by
  have hset (v : Value) (hv : v.isObject = true) : Object.get? field.name (Object.set field.name v []) ≠ some (.bool b) := by
    rw [Object.get?_set_self]
    rintro ⟨⟩
    cases hv
  have hadded (vs : List Value) : Object.get? field.name (addTo "NOT" vs []) ≠ some (.bool b) := by
    simp only [addTo, Object.set, Object.get?]
    split <;> simp
  by_cases hnull : operand = nullWord
  · unfold applyNegated at hnext
    simp only [if_pos hnull] at hnext
    split at hnext
    · cases hnext
      exact hset _ rfl
    · split at hnext
      · cases hnext
        simp [Object.get?]
      · cases hnext
        exact hset _ rfl
  · cases hlist : Operand.isBracketed operand with
    | true =>
        rw [applyNegated_listed hnull hlist] at hnext
        cases hnext
        split
        · exact hadded _
        · exact hset _ rfl
    | false =>
        cases hrange : Operand.after? "between:" operand with
        | none =>
            rw [applyNegated_compared hnull hlist hrange] at hnext
            obtain ⟨v, _, rfl⟩ := map_ok_iff.mp hnext
            exact hset _ rfl
        | some rest =>
            rw [applyNegated_range hnull hlist hrange] at hnext
            unfold excludeRange at hnext
            obtain ⟨ends, _, hnext⟩ := bind_ok_iff.mp hnext
            dsimp only at hnext
            split at hnext
            · cases hnext
              exact hadded _
            · cases hnext

/-- Only the words for truth values set one. -/
theorem applyClause_truth {b : Bool} (hnext : applyClause s entity name operand [] = .ok next)
    (hb : Object.get? name next = some (.bool b)) : operand ∈ Operand.truths := by
  unfold applyClause at hnext
  obtain ⟨e, _, hnext⟩ := bind_ok_iff.mp hnext
  cases hf : e.field? name with
  | none =>
      rw [hf] at hnext
      cases hnext
  | some field =>
      have hname : field.name = name := by simpa using List.find?_some hf
      simp only [hf] at hnext
      split at hnext
      · repeat' split at hnext
        all_goals cases hnext
        all_goals simp [Object.get?_set_self] at hb
      · cases hnot : Operand.after? "not:" operand with
        | some denied =>
            simp only [hnot] at hnext
            exact absurd (hname ▸ hb) (applyNegated_untrue hnext)
        | none =>
            simp only [hnot] at hnext
            split at hnext
            · cases hnext
              cases hb
            · cases hlist : Operand.isBracketed operand with
              | true =>
                  rw [applyOperand_listed hlist] at hnext
                  cases hnext
                  split at hb
                  · simp only [addTo, Object.set, Object.get?] at hb
                    split at hb <;> simp at hb
                  · simp [Object.get?_set_self] at hb
              | false =>
                  rw [applyOperand_compared hlist] at hnext
                  obtain ⟨v, hv, rfl⟩ := map_ok_iff.mp hnext
                  rw [Object.get?_set_self] at hb
                  cases hb
                  exact Operand.compared_truth hv

/-! ## Ways through a tree -/

/-- Names that have a meaning of their own in trees. -/
def words : List String :=
  ["some", "OR", "NOT", "equals", "not", "in", "notIn", "lt", "lte", "gt", "gte", "contains", "startsWith", "endsWith"]

/-- A path of relations meets nothing but trees. -/
def Passable (s : Schema) : List String → Object → Prop
  | [], _ => True
  | name :: path, tree => s.Declares name →
    match Object.get tree name with
    | .null => True
    | .object existing =>
      match Object.get? "some" existing with
      | some (.object inner) => Passable s path inner
      | some _ => False
      | none => Passable s path existing
    | _ => False

theorem passable_nil : Passable s path [] := by
  cases path with
  | nil => trivial
  | cons name path => exact fun _ => trivial

/-- Where a path meets nothing but trees, a change fails as it does at the end of the path. -/
theorem alongPath_validating (hs : s.Linked) (he : s.entity entity = .ok e)
    (hchange : ∀ entity e tree, s.entity entity = .ok e → Validating (change entity tree)) (hpath : Passable s path tree) :
    Validating (alongPath s root change path entity tree) := by
  induction path generalizing entity e tree with
  | nil => exact hchange entity e tree he
  | cons name path ih =>
      rw [alongPath, s.relation?_of_entity he]
      cases hr : e.relation? name with
      | none => exact .error ⟨_, _, rfl⟩
      | some r =>
          have hname : r.name = name := by simpa using List.find?_some hr
          obtain ⟨target, ht⟩ := hs entity e he r (List.mem_of_find?_eq_some hr)
          have hpath := hpath ⟨entity, e, he, .inr (by rw [hr]; rfl)⟩
          simp only [bind, Except.bind, hname]
          cases hget : Object.get tree name with
          | null => exact (ih ht passable_nil).bind fun _ _ => .ok
          | object existing =>
              simp only [hget] at hpath ⊢
              cases hsome : Object.get? "some" existing with
              | none =>
                  simp only [hsome] at hpath ⊢
                  exact (ih ht hpath).bind fun _ _ => .ok
              | some v =>
                  cases v with
                  | object inner =>
                      simp only [hsome] at hpath ⊢
                      exact (ih ht hpath).bind fun _ _ => .ok
                  | _ => simp [hsome] at hpath
          | _ => simp [hget] at hpath

/-! ## Changes on the way -/

theorem word_of_operator {P : List Value → Prop} {op : String} {v : Value} (h : Operand.Operator P op v) :
    op ∈ words ∧ op ≠ "some" := by
  cases h with
  | compares h => rcases h with rfl | rfl <;> decide
  | orders h =>
      simp only [List.mem_cons, List.not_mem_nil, or_false] at h
      rcases h with rfl | rfl | rfl | rfl <;> decide
  | finds h =>
      simp only [List.mem_cons, List.not_mem_nil, or_false] at h
      rcases h with rfl | rfl | rfl <;> decide
  | lists h => rcases h with rfl | rfl <;> decide
  | denies => decide

theorem get?_operators {P : List Value → Prop} {members : Object} (h : ∀ kv ∈ members, Operand.Operator P kv.1 kv.2)
    (hname : name = "some" ∨ name ∉ words) : Object.get? name members = none := by
  rw [Object.get?_eq_none_iff]
  intro hin
  obtain ⟨kv, hmem, rfl⟩ := List.mem_map.mp hin
  have hword := word_of_operator (h kv hmem)
  exact hname.elim hword.2 fun hnot => hnot hword.1

/-- Only the first member on a path counts. -/
theorem Passable.congr {tree' : Object} (h : Object.get tree name = Object.get tree' name)
    (htree : Passable s (name :: later) tree) : Passable s (name :: later) tree' := by
  simpa only [Passable, h] using htree

theorem passable_of_null (h : ∀ name ∈ path, s.Declares name → Object.get tree name = .null) : Passable s path tree := by
  cases path with
  | nil => trivial
  | cons name path =>
      intro hdeclared
      rw [h name List.mem_cons_self hdeclared]
      trivial

theorem get_set_of_ne {v : Value} {other : String} (h : other ≠ name) : Object.get (Object.set other v tree) name = Object.get tree name := by
  rw [Object.get, Object.get?_set_of_ne h, Object.get]

variable {mark : Mark}

/-- A clause leaves a way open, unless it ends on the way with a truth value. -/
theorem Mark.Says.passable (h : Mark.Says field operand mark) (hwords : ∀ name ∈ later, s.Declares name → name ∉ words)
    (htruth : ∀ b, mark = .member field.name (.bool b) → ¬ [field.name] <+: later) (htree : Passable s later tree) :
    Passable s later (mark.on tree) := by
  cases later with
  | nil => trivial
  | cons name rest =>
      have hitems {key : String} (hkey : key ∈ collecting) (vs : List Value) :
          Passable s (name :: rest) ((Mark.items key vs).on tree) := by
        intro hdeclared
        have hne : key ≠ name := by
          rintro rfl
          refine hwords key List.mem_cons_self hdeclared ?_
          simp only [collecting, List.mem_cons, List.not_mem_nil, or_false] at hkey
          rcases hkey with rfl | rfl <;> decide
        exact htree.congr (get_set_of_ne hne).symm hdeclared
      have hmember (members : Object) (hsome : Object.get? "some" members = Option.none)
          (hrest : ∀ name ∈ rest, s.Declares name → Object.get members name = .null) :
          Passable s (name :: rest) ((Mark.member field.name (.object members)).on tree) := by
        by_cases hname : field.name = name
        · intro _
          simp only [Mark.on, Object.get, hname, Object.get?_set_self, Option.getD_some, hsome]
          exact passable_of_null hrest
        · exact htree.congr (get_set_of_ne hname).symm
      cases h with
      | none => exact htree
      | missing | present =>
          refine hmember _ rfl fun other _ _ => ?_
          simp only [Object.get, Object.get?]
          split <;> rfl
      | compared _ hv =>
          cases hv with
          | truth b =>
              have hname : field.name ≠ name := by
                rintro rfl
                exact htruth b rfl ⟨rest, rfl⟩
              exact htree.congr (get_set_of_ne hname).symm
          | operators h =>
              refine hmember _ (get?_operators h (.inl rfl)) fun other hin hdeclared => ?_
              rw [Object.get, get?_operators h (.inr (hwords other (List.mem_cons_of_mem _ hin) hdeclared))]
              rfl
      | listed _ hkey => exact hitems hkey _
      | excluded => exact hitems (by decide) _

theorem Mark.Says.get?_some (h : Mark.Says field operand mark) (hname : field.name ≠ "some") :
    Object.get? "some" (mark.on tree) = Object.get? "some" tree := by
  cases h with
  | none => rfl
  | missing | present | compared => exact Object.get?_set_of_ne hname _ _
  | listed _ hkey =>
      refine Object.get?_set_of_ne ?_ _ _
      rintro rfl
      exact absurd hkey (by decide)
  | excluded => exact Object.get?_set_of_ne (by decide) _ _

theorem alongPath_get?_some (hwords : ∀ name ∈ path, s.Declares name → name ≠ "some")
    (hchange : ∀ entity tree next, change entity tree = .ok next → Object.get? "some" next = Object.get? "some" tree)
    (hnext : alongPath s root change path entity tree = .ok next) :
    Object.get? "some" next = Object.get? "some" tree := by
  cases path with
  | nil => exact hchange entity tree next hnext
  | cons name path =>
      obtain ⟨e, r, he, hr, rfl, henters⟩ := alongPath_cons_ok hnext
      obtain ⟨mark, hkey, rfl, _⟩ := henters.mark
      rcases hkey with rfl | ⟨v, rfl⟩
      · rfl
      · exact Object.get?_set_of_ne (hwords r.name List.mem_cons_self ⟨entity, e, he, .inr (by rw [hr]; rfl)⟩) _ _

/-- A later path that is open stays so, if the change at the end leaves its rest open. -/
theorem alongPath_passable (hwords : ∀ name ∈ path, s.Declares name → name ≠ "some")
    (hsome : ∀ entity tree next, change entity tree = .ok next → Object.get? "some" next = Object.get? "some" tree)
    (hchange : ∀ rest, later = path ++ rest → ∀ entity tree next, change entity tree = .ok next →
      Passable s rest tree → Passable s rest next)
    (hlater : Passable s later tree) (hnext : alongPath s root change path entity tree = .ok next) :
    Passable s later next := by
  induction path generalizing entity tree next later with
  | nil => exact hchange later rfl entity tree next hnext hlater
  | cons name path ih =>
      cases later with
      | nil => trivial
      | cons first rest =>
          obtain ⟨e, r, he, hr, rfl, henters⟩ := alongPath_cons_ok hnext
          have hwords' : ∀ name ∈ path, s.Declares name → name ≠ "some" :=
            fun name hin => hwords name (List.mem_cons_of_mem _ hin)
          by_cases hfirst : r.name = first
          · subst hfirst
            intro hdeclared
            have hopen := hlater hdeclared
            have hbelow {inner inner' : Object} (hinner : Passable s rest inner)
                (hrun : alongPath s root change path r.target inner = .ok inner') : Passable s rest inner' :=
              ih hwords' (fun rest' hrest => hchange rest' (by rw [hrest]; rfl)) hinner hrun
            have hplain {inner inner' : Object} (hrun : alongPath s root change path r.target inner = .ok inner') :
                Object.get? "some" inner' = Object.get? "some" inner := alongPath_get?_some hwords' hsome hrun
            cases henters with
            | built hget hrun =>
                rw [Object.get, Object.get?_set_self, Option.getD_some]
                cases r.isList with
                | true =>
                    simp only [↓reduceIte, Object.get?]
                    exact hbelow passable_nil hrun
                | false =>
                    simp only [Bool.false_eq_true, ↓reduceIte, hplain hrun, Object.get?]
                    exact hbelow passable_nil hrun
            | inside hget hkey hrun =>
                simp only [hget, hkey] at hopen
                simp only [Object.get, Object.get?_set_self, Option.getD_some]
                exact hbelow hopen hrun
            | through hget hkey hrun =>
                simp only [hget, hkey] at hopen
                simp only [Object.get, Object.get?_set_self, Option.getD_some, hplain hrun, hkey]
                exact hbelow hopen hrun
            | kept => exact hopen
          · obtain ⟨mark, hkey, rfl, _⟩ := henters.mark
            rcases hkey with rfl | ⟨v, rfl⟩
            · exact hlater
            · exact hlater.congr (get_set_of_ne hfirst).symm

/-! ## Whole texts -/

/-- Clauses none of which is an exception: operands are read or refused, no relation on a path and no field is named
like a word of trees that it is mistaken for, and no path goes on from a truth value. -/
structure Regular (s : Schema) (clauses : List Clause) : Prop where
  legible : ∀ clause ∈ clauses, Legible clause.operand
  paths : ∀ clause ∈ clauses, ∀ name ∈ clause.path, s.Declares name → name ∉ words
  names : ∀ clause ∈ clauses, s.Declares clause.name → clause.name ≠ "some"
  order : clauses.Pairwise fun clause later =>
    clause.operand ∈ Operand.truths → ¬ (clause.path ++ [clause.name]) <+: later.path

variable {clause : Clause} {clauses : List Clause} {text : List Char}

theorem Regular.tail (h : Regular s (clause :: clauses)) : Regular s clauses where
  legible later hin := h.legible later (List.mem_cons_of_mem _ hin)
  paths later hin := h.paths later (List.mem_cons_of_mem _ hin)
  names later hin := h.names later (List.mem_cons_of_mem _ hin)
  order := (List.pairwise_cons.mp h.order).2

theorem addClause_validating (hs : s.Linked) (he : s.entity entity = .ok e) (hread : Clause.read? text = some clause)
    (hlegible : Legible clause.operand) (hpath : Passable s clause.path tree) :
    Validating (addClause s entity tree text) := by
  rw [addClause_eq he hread]
  split
  · exact .error ⟨_, _, rfl⟩
  · exact alongPath_validating hs he (fun _ _ _ he => applyClause_validating he hlegible) hpath

/-- A clause leaves the ways of the clauses after it open. -/
theorem addClause_passable (h : Regular s (clause :: clauses)) (hread : Clause.read? text = some clause)
    {after : Clause} (hin : after ∈ clauses) (htree : Passable s after.path tree)
    (hadd : addClause s entity tree text = .ok next) : Passable s after.path next := by
  refine alongPath_passable ?_ ?_ ?_ htree (addClause_ok hread hadd)
  · intro name hname hdeclared hsome
    exact h.paths clause List.mem_cons_self name hname hdeclared (hsome ▸ List.mem_cons_self)
  · intro entity tree next hnext
    obtain ⟨e, field, mark, he, hf, hsays, rfl, _⟩ := applyClause_mark hnext
    have hname : field.name = clause.name := by simpa using List.find?_some hf
    refine hsays.get?_some (hname ▸ h.names clause List.mem_cons_self ⟨entity, e, he, .inl ?_⟩)
    rw [Entity.hasField, hf]
    rfl
  · intro rest hrest entity tree next hnext hopen
    obtain ⟨e, field, mark, he, hf, hsays, rfl, hall⟩ := applyClause_mark hnext
    have hname : field.name = clause.name := by simpa using List.find?_some hf
    refine hsays.passable ?_ ?_ hopen
    · intro name hmem
      exact h.paths after (List.mem_cons_of_mem _ hin) name (hrest ▸ List.mem_append_right _ hmem)
    · rintro b rfl ⟨more, rfl⟩
      have htruth : clause.operand ∈ Operand.truths := by
        refine applyClause_truth (hall []) (b := b) ?_
        rw [← hname]
        exact Object.get?_set_self _ _ _
      refine (List.pairwise_cons.mp h.order).1 after hin htruth ⟨more, ?_⟩
      rw [hrest, hname, List.append_assoc]

theorem addClauses_validating (hs : s.Linked) (he : s.entity entity = .ok e) {texts : List (List Char)}
    (h : Regular s (texts.filterMap Clause.read?))
    (htree : ∀ clause ∈ texts.filterMap Clause.read?, Passable s clause.path tree) :
    Validating (texts.foldlM (addClause s entity) tree) := by
  induction texts generalizing tree with
  | nil => exact .ok
  | cons text texts ih =>
      rw [List.foldlM_cons]
      cases hread : Clause.read? text with
      | none =>
          rw [List.filterMap_cons_none hread] at h htree
          rw [addClause_skipped hread]
          exact ih h htree
      | some clause =>
          rw [List.filterMap_cons_some hread] at h htree
          have hadded := addClause_validating hs he hread (h.legible clause List.mem_cons_self)
            (htree clause List.mem_cons_self)
          refine hadded.bind fun next hnext => ih h.tail fun after hin => ?_
          exact addClause_passable h hread hin (htree after (List.mem_cons_of_mem _ hin)) hnext

/-- A filter text without exceptions is read as a tree, or refused as invalid. -/
theorem read_or_refused (hs : s.Linked) (he : s.entity entity = .ok e)
    (h : Regular s ((splitClauses text).filterMap Clause.read?)) :
    (∃ tree, parse s entity text = .ok tree) ∨
      ∃ message data, parse s entity text = .error (.validation message data) := by
  have hvalidating : Validating (parse s entity text) := by
    unfold parse
    split
    · exact .ok
    · exact addClauses_validating hs he h fun _ _ => passable_nil
  cases hparse : parse s entity text with
  | ok tree => exact .inl ⟨tree, rfl⟩
  | error failure =>
      obtain ⟨message, data, rfl⟩ := hvalidating failure hparse
      exact .inr ⟨message, data, rfl⟩

/-! Posts that are looked for by clauses of every kind. -/

def postClauses : List Clause :=
  [⟨[], "author", "x".toList⟩, ⟨["author"], "name", "not:gt: 5".toList⟩, ⟨["comments"], "body", "[a%,b]".toList⟩,
   ⟨[], "id", "on:9999-12-30".toList⟩, ⟨["comments", "author"], "id", "1".toList⟩, ⟨[], "comments", "false".toList⟩]

def postText : List Char :=
  "author=x,author.name=not:gt: 5,comments.body=[a%,b],id=on:9999-12-30,comments.author.id=1,comments=false".toList

theorem blogSchema_linked : Catalog.blogCatalog.schema.Linked := Schema.linked_of_all rfl

theorem postClauses_regular : Regular Catalog.blogCatalog.schema postClauses where
  legible := by
    have hlegible : ∀ operand ∈ postClauses.map (·.operand), Operand.Legible operand := by decide
    have hdenied : ∀ operand ∈ postClauses.map (·.operand),
        ∀ denied ∈ Operand.after? "not:" operand, Operand.Legible denied := by decide
    intro clause hin
    have hin : clause.operand ∈ postClauses.map (·.operand) := List.mem_map_of_mem hin
    exact ⟨hlegible _ hin, hdenied _ hin⟩
  paths := by
    have hwords : ∀ path ∈ postClauses.map (·.path), ∀ name ∈ path, name ∉ words := by decide
    exact fun clause hin name hname _ => hwords _ (List.mem_map_of_mem hin) name hname
  names := by
    have hwords : ∀ name ∈ postClauses.map (·.name), name ≠ "some" := by decide
    exact fun clause hin _ => hwords _ (List.mem_map_of_mem hin)
  order := by decide

/-- A path that is unknown is refused, after clauses that are read. -/
theorem postText_refused :
    Catalog.blogCatalog.schema.Linked ∧ (∃ e, Catalog.blogCatalog.schema.entity "Post" = .ok e) ∧
    Regular Catalog.blogCatalog.schema ((splitClauses postText).filterMap Clause.read?) ∧
    ((∃ tree, parse Catalog.blogCatalog.schema "Post" postText = .ok tree) ∨
      ∃ message data, parse Catalog.blogCatalog.schema "Post" postText = .error (.validation message data)) := by
  have hclauses : (splitClauses postText).filterMap Clause.read? = postClauses := rfl
  have hregular : Regular Catalog.blogCatalog.schema ((splitClauses postText).filterMap Clause.read?) := by
    rw [hclauses]
    exact postClauses_regular
  exact ⟨blogSchema_linked, ⟨_, rfl⟩, hregular, read_or_refused blogSchema_linked rfl hregular⟩

/-- Neither read nor refused: the day after the last one, a path that goes on from a truth value, and a number behind
a separator of information. -/
theorem exceptions_unread :
    parse Catalog.blogCatalog.schema "Post" "id=on:9999-12-31".toList = .error .illFormed ∧
    parse Catalog.blogCatalog.schema "Post" "author=true,author.name=x".toList = .error .illFormed ∧
    parse Catalog.blogCatalog.schema "Post" "id=gt:\x1c5".toList = .error .illFormed :=
  ⟨rfl, rfl, rfl⟩

end Filter

end RecordGraph
