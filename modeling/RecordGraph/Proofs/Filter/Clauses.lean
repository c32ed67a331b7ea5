import RecordGraph.Filter.Parser
import RecordGraph.Proofs.Failure.Success
import RecordGraph.Proofs.Schema.Names

/-!
# What clauses leave

A clause says something of a field at the end of a path. Whatever the tree holds there already, it leaves
the same mark on it: a member is set, or items are added under a logical key.
-/

namespace RecordGraph

/-! ## Conditions as operands are read -/

namespace Operand

/-- A number or a moment. -/
def isOrdered : Value → Bool
  | .int _ | .float _ | .datetime _ => true
  | _ => false

/-- An operator with a value that it can be applied to; a list that is searched has the property `P`. -/
inductive Operator (P : List Value → Prop) : String → Value → Prop
  | compares {op : String} {v : Value} (h : op = "equals" ∨ op = "not") (hv : v.isObject = false) : Operator P op v
  | orders {op : String} {v : Value} (h : op ∈ ["lt", "lte", "gt", "gte"]) (hv : isOrdered v = true) : Operator P op v
  | finds {op : String} {v : Value} (h : op ∈ ["contains", "startsWith", "endsWith"]) : Operator P op v
  | lists {op : String} {vs : List Value} (h : op = "in" ∨ op = "notIn") (hvs : P vs) : Operator P op (.list vs)
  | denies {members : Object} (h : ∀ kv ∈ members, Operator P kv.1 kv.2) : Operator P "not" (.object members)

/-- A truth value, or operators that all have to hold. -/
inductive Comparator (P : List Value → Prop) : Value → Prop
  | truth (b : Bool) : Comparator P (.bool b)
  | operators {members : Object} (h : ∀ kv ∈ members, Operator P kv.1 kv.2) : Comparator P (.object members)

variable {P : List Value → Prop} {cs : List Char} {members : Object}

theorem Operator.mono {Q : List Value → Prop} {op : String} {v : Value} (h : Operator P op v)
    (himp : ∀ vs, P vs → Q vs) : Operator Q op v := by
  induction h with
  | compares h hv => exact .compares h hv
  | orders h hv => exact .orders h hv
  | finds h => exact .finds h
  | lists h hvs => exact .lists h (himp _ hvs)
  | denies _ ih => exact .denies ih

theorem Comparator.mono {Q : List Value → Prop} {v : Value} (h : Comparator P v) (himp : ∀ vs, P vs → Q vs) :
    Comparator Q v := by
  cases h with
  | truth b => exact .truth b
  | operators h => exact .operators fun kv hin => (h kv hin).mono himp

theorem ofNumber_ordered (x : Binary64) : isOrdered (ofNumber x) = true := by
  unfold ofNumber
  split <;> rfl

theorem isObject_of_ordered {v : Value} (h : isOrdered v = true) : v.isObject = false := by
  cases v with
  | object _ => cases h
  | _ => rfl

theorem operators_single {op : String} {v : Value} (h : Operator P op v) : ∀ kv ∈ [(op, v)], Operator P kv.1 kv.2 :=
  fun _ hkv => List.mem_singleton.mp hkv ▸ h

/-- A range that is told by its two ends. -/
theorem operators_pair {op op' : String} {v w : Value} (h : Operator P op v) (h' : Operator P op' w) :
    ∀ kv ∈ [(op, v), (op', w)], Operator P kv.1 kv.2 := by
  intro kv hkv
  rcases List.mem_cons.mp hkv with rfl | hkv
  · exact h
  · exact List.mem_singleton.mp hkv ▸ h'

theorem Comparator.single {op : String} {v : Value} (h : Operator P op v) : Comparator P (.object [(op, v)]) :=
  .operators (operators_single h)

theorem Comparator.denied {v : Value} (h : Comparator P v) : Comparator P (.object [("not", v)]) := by
  cases h with
  | truth b => exact .single (.compares (.inr rfl) rfl)
  | operators h => exact .single (.denies h)

theorem text_comparator (cs : List Char) : Comparator P (text cs) := by
  have hone {op : String} (s : String) (h : op ∈ ["equals", "contains", "startsWith", "endsWith"]) :
      Comparator P (.object [(op, .text s)]) := by
    rcases List.mem_cons.mp h with rfl | h
    · exact .single (.compares (.inl rfl) rfl)
    · exact .single (.finds (by simpa [or_comm, or_left_comm] using h))
  unfold text
  dsimp only
  split
  · exact .truth true
  split
  · exact .truth false
  split
  · exact hone _ (by decide)
  split
  · exact hone _ (by decide)
  split
  · exact hone _ (by decide)
  · exact hone _ (by decide)

theorem splitWord?_mem {α : Type} {words : List (String × α)} {meaning : α} {rest : List Char}
    (h : splitWord? words cs = some (meaning, rest)) : ∃ name, (name, meaning) ∈ words := by
  obtain ⟨⟨name, meaning'⟩, hin, h⟩ := List.exists_of_findSome?_eq_some h
  obtain ⟨_, _, he⟩ := Option.map_eq_some_iff.mp h
  cases he
  exact ⟨name, hin⟩

theorem numberWord_operator {op : String} {v : Value} (h : ∃ name, (name, .compare op) ∈ numberWords)
    (hv : isOrdered v = true) : Operator P op v := by
  obtain ⟨name, hname⟩ := h
  simp only [numberWords, List.mem_cons, Prod.mk.injEq, NumberWord.compare.injEq, List.not_mem_nil, or_false,
    reduceCtorEq, and_false] at hname
  rcases hname with ⟨_, rfl⟩ | ⟨_, rfl⟩ | ⟨_, rfl⟩ | ⟨_, rfl⟩ | ⟨_, rfl⟩ | ⟨_, rfl⟩
  · exact .orders (by decide) hv
  · exact .orders (by decide) hv
  · exact .orders (by decide) hv
  · exact .orders (by decide) hv
  · exact .compares (.inl rfl) (isObject_of_ordered hv)
  · exact .compares (.inr rfl) (isObject_of_ordered hv)

theorem momentWord_operator {op : String} {v : Value} (h : ∃ name, (name, .compare op) ∈ momentWords)
    (hv : isOrdered v = true) : Operator P op v := by
  obtain ⟨name, hname⟩ := h
  simp only [momentWords, List.mem_cons, Prod.mk.injEq, MomentWord.compare.injEq, List.not_mem_nil, or_false,
    reduceCtorEq, and_false] at hname
  rcases hname with ⟨_, rfl⟩ | ⟨_, rfl⟩ | ⟨_, rfl⟩ | ⟨_, rfl⟩ <;> exact .orders (by decide) hv

theorem number?_operators (h : number? cs = .ok (some members)) : ∀ kv ∈ members, Operator P kv.1 kv.2 := by
  unfold number? at h
  split at h
  · obtain ⟨start, _, h⟩ := bind_ok_iff.mp h
    obtain ⟨stop, _, h⟩ := bind_ok_iff.mp h
    obtain ⟨low, _, h⟩ := Option.bind_eq_some_iff.mp (Except.ok.inj h)
    obtain ⟨high, _, rfl⟩ := Option.map_eq_some_iff.mp h
    exact operators_pair (.orders (by decide) (ofNumber_ordered low)) (.orders (by decide) (ofNumber_ordered high))
  · rename_i op rest hword
    obtain ⟨start, _, h⟩ := bind_ok_iff.mp h
    obtain ⟨x, _, rfl⟩ := Option.map_eq_some_iff.mp (Except.ok.inj h)
    exact operators_single (numberWord_operator (splitWord?_mem hword) (ofNumber_ordered x))
  · obtain ⟨start, _, h⟩ := bind_ok_iff.mp h
    obtain ⟨x, _, rfl⟩ := Option.map_eq_some_iff.mp (Except.ok.inj h)
    exact operators_single (.compares (.inl rfl) (isObject_of_ordered (ofNumber_ordered x)))

theorem numeric?_operators (h : numeric? cs = .ok (some members)) : ∀ kv ∈ members, Operator P kv.1 kv.2 := by
  unfold numeric? at h
  split at h
  · exact number?_operators h
  · cases h

theorem datetime?_operators (h : datetime? cs = .ok (some members)) : ∀ kv ∈ members, Operator P kv.1 kv.2 := by
  unfold datetime? at h
  split at h
  · cases h
  · rename_i op rest hword
    obtain ⟨t, _, h⟩ := bind_ok_iff.mp h
    cases h
    exact operators_single (momentWord_operator (splitWord?_mem hword) rfl)
  · obtain ⟨t, _, h⟩ := bind_ok_iff.mp h
    dsimp only at h
    split at h
    · cases h
      exact operators_pair (.orders (by decide) rfl) (.orders (by decide) rfl)
    · cases h
  · obtain ⟨⟨start, stop⟩, _, h⟩ := bind_ok_iff.mp h
    dsimp only at h
    split at h
    · cases h
    · obtain ⟨low, _, h⟩ := bind_ok_iff.mp h
      obtain ⟨high, _, h⟩ := bind_ok_iff.mp h
      cases h
      exact operators_pair (.orders (by decide) rfl) (.orders (by decide) rfl)

end Operand

namespace Filter

/-! ## Marks -/

/-- The keys under which items are collected. -/
def collecting : List String := ["OR", "NOT"]

/-- What a clause leaves on the tree at the end of its path. -/
inductive Mark where
  | none
  | member (name : String) (v : Value)
  | items (key : String) (vs : List Value)

def Mark.on (tree : Object) : Mark → Object
  | none => tree
  | member name v => Object.set name v tree
  | items key vs => addTo key vs tree

/-- The operand asks whether there is a value. -/
def TestsNull (operand : List Char) : Prop :=
  operand = nullWord ∨ Operand.after? "not:" operand = some nullWord

/-- The operand is compared with the values of the field. -/
def Compares (field : Field) (operand : List Char) : Prop :=
  operand ≠ [] ∧ (field.isRelation = true → ¬ TestsNull operand)

/-- The lists that an operand is read as. -/
def Listed (operand : List Char) (vs : List Value) : Prop :=
  ∃ list, (list = operand ∨ Operand.after? "not:" operand = some list) ∧ Operand.isBracketed list = true ∧
    vs = Operand.items list

/-- The marks that clauses on a field leave. -/
inductive Mark.Says (field : Field) (operand : List Char) : Mark → Prop
  | none : Says field operand .none
  | missing (hr : field.isRelation = true) (ho : operand = nullWord) :
    Says field operand (.member field.name (.object [("is", .null)]))
  | present (hr : field.isRelation = true) (ho : Operand.after? "not:" operand = some nullWord) :
    Says field operand (.member field.name (.object [("isNot", .null)]))
  | compared (ho : Compares field operand) {v : Value} (hv : Operand.Comparator (Listed operand) v) :
    Says field operand (.member field.name v)
  | listed (ho : Compares field operand) {key : String} (hkey : key ∈ collecting) {vs : List Value}
    (hvs : ∀ v ∈ vs, ∃ w, Operand.Comparator (Listed operand) w ∧
      v = .object [(field.name, w)]) : Says field operand (.items key vs)
  | excluded (ho : Compares field operand) {low high : Value} (hlow : Operand.Comparator (Listed operand) low)
    (hhigh : Operand.Comparator (Listed operand) high) : Says field operand
      (.items "NOT" [.object [("AND", .list [.object [(field.name, low)], .object [(field.name, high)]])]])

/-- A change of the tree that always fails, or always leaves the same mark. -/
def Leaves (change : Object → Except Failure Object) (P : Mark → Prop) : Prop :=
  ∃ outcome : Except Failure Mark, (∀ tree, change tree = outcome.map (Mark.on tree)) ∧
    ∀ mark, outcome = .ok mark → P mark

section Leaves

variable {change : Object → Except Failure Object} {P : Mark → Prop} {mark : Mark}

theorem leaves_mark (h : P mark) : Leaves (fun tree => .ok (mark.on tree)) P :=
  ⟨.ok mark, fun _ => rfl, fun _ he => by cases he; exact h⟩

theorem leaves_failure (failure : Failure) : Leaves (fun _ => .error failure) P :=
  ⟨.error failure, fun _ => rfl, fun _ he => nomatch he⟩

theorem leaves_bind {α : Type} {x : Except Failure α} {f : α → Object → Except Failure Object}
    (h : ∀ a, x = .ok a → Leaves (f a) P) : Leaves (fun tree => x >>= fun a => f a tree) P := by
  cases x with
  | error failure => exact leaves_failure failure
  | ok a => exact h a rfl

end Leaves

variable {field : Field} {operand rest : List Char}

theorem textAlternatives_compared {P : List Value → Prop} {name : String} (items : List Value) :
    ∀ v ∈ textAlternatives name items, ∃ w, Operand.Comparator P w ∧ v = .object [(name, w)] := by
  intro v hv
  obtain ⟨item, _, rfl⟩ := List.mem_map.mp hv
  exact ⟨_, Operand.text_comparator _, rfl⟩

theorem applyOperand_leaves (ho : Compares field operand) :
    Leaves (applyOperand field.name operand) (Mark.Says field operand) := by
  unfold applyOperand
  refine leaves_bind fun moments hmoments => ?_
  cases moments with
  | some condition => exact leaves_mark (Mark.Says.compared ho (.operators (Operand.datetime?_operators hmoments)))
  | none =>
      dsimp only
      refine leaves_bind fun number hnumber => ?_
      cases number with
      | some condition =>
          exact leaves_mark (Mark.Says.compared ho (.operators (Operand.numeric?_operators hnumber)))
      | none =>
          dsimp only
          split
          · rename_i hlist
            split
            · exact leaves_mark (Mark.Says.listed ho (by decide) (textAlternatives_compared _))
            · exact leaves_mark (Mark.Says.compared ho (.single (.lists (.inl rfl) ⟨operand, .inl rfl, hlist, rfl⟩)))
          · exact leaves_mark (Mark.Says.compared ho (Operand.text_comparator _))

theorem excludeRange_leaves (ho : Compares field operand) {operands : List Char} :
    Leaves (excludeRange field.name operands) (Mark.Says field operand) := by
  unfold excludeRange
  refine leaves_bind fun ends hends => ?_
  dsimp only
  split
  · rename_i low high hbounds
    have hordered : Operand.isOrdered low = true ∧ Operand.isOrdered high = true := by
      split at hbounds
      all_goals
        simp only [Option.bind_eq_bind, Option.bind_eq_some_iff, Option.some.injEq, Prod.mk.injEq] at hbounds
        obtain ⟨_, _, _, _, rfl, rfl⟩ := hbounds
      · exact ⟨Operand.ofNumber_ordered _, Operand.ofNumber_ordered _⟩
      · exact ⟨rfl, rfl⟩
    exact leaves_mark (Mark.Says.excluded ho (.single (.orders (by decide) hordered.1))
      (.single (.orders (by decide) hordered.2)))
  · exact leaves_failure _

theorem applyNegated_leaves (hnull : operand ≠ nullWord) (hrest : Operand.after? "not:" operand = some rest) :
    Leaves (applyNegated field rest) (Mark.Says field operand) := by
  have hne : operand ≠ [] := by
    rintro rfl
    cases hrest
  unfold applyNegated
  by_cases hr : rest = nullWord
  · simp only [if_pos hr]
    split
    · exact leaves_mark (Mark.Says.present ‹_› (hr ▸ hrest))
    · rename_i hscalar
      split
      · exact leaves_mark Mark.Says.none
      · exact leaves_mark (Mark.Says.compared ⟨hne, fun h => absurd h hscalar⟩
          (.single (.denies (Operand.operators_single (.compares (.inl rfl) rfl)))))
  · simp only [if_neg hr]
    have ho : Compares field operand := by
      refine ⟨hne, fun _ htests => htests.elim hnull fun hnot => ?_⟩
      exact hr (Option.some.inj (hrest.symm.trans hnot))
    split
    · rename_i hlist
      split
      · exact leaves_mark (Mark.Says.listed ho (by decide) (textAlternatives_compared _))
      · exact leaves_mark (Mark.Says.compared ho (.single (.lists (.inr rfl) ⟨rest, .inr hrest, hlist, rfl⟩)))
    · split
      · exact excludeRange_leaves ho
      · refine leaves_bind fun moments hmoments => ?_
        cases moments with
        | some condition =>
            exact leaves_mark (Mark.Says.compared ho (.denied (.operators (Operand.datetime?_operators hmoments))))
        | none =>
            dsimp only
            refine leaves_bind fun number hnumber => ?_
            cases number with
            | some condition =>
                exact leaves_mark (Mark.Says.compared ho (.denied (.operators (Operand.numeric?_operators hnumber))))
            | none => exact leaves_mark (Mark.Says.compared ho (Operand.text_comparator _).denied)

/-! ## Clauses -/

/-- What a clause says, of which field at the end of which path. -/
structure Clause where
  path : List String
  name : String
  operand : List Char

/-- A clause as it is read. A text without an equals sign is no clause. -/
def Clause.read? (text : List Char) : Option Clause :=
  match cutAt '=' text with
  | (_, none) => none
  | (key, some operand) =>
    let segments := (splitAt '.' key).map fun part => String.ofList (trim part)
    some { path := segments.dropLast, name := segments.getLastD "", operand := trim operand }

variable {s : Schema} {e : Entity} {root entity name : String} {tree next : Object} {text : List Char} {clause : Clause}
  {path : List String} {change : String → Object → Except Failure Object}

/-- A clause on a field of an entity always fails, or always leaves the same mark. -/
theorem applyClause_leaves (he : s.entity entity = .ok e) (hf : e.field? name = some field) :
    Leaves (applyClause s entity name operand) (Mark.Says field operand) := by
  have hname : field.name = name := by simpa using List.find?_some hf
  subst hname
  unfold applyClause
  simp only [he]
  refine leaves_bind (x := Except.ok e) fun e' he' => ?_
  cases he'
  simp only [hf]
  by_cases hnull : operand = nullWord
  · simp only [if_pos hnull]
    split
    · exact leaves_mark (Mark.Says.missing ‹_› hnull)
    · rename_i hscalar
      split
      · exact leaves_failure _
      · have hne : operand ≠ [] := fun hempty => by rw [hempty] at hnull; cases hnull
        exact leaves_mark (Mark.Says.compared ⟨hne, fun h => absurd h hscalar⟩ (.single (.compares (.inl rfl) rfl)))
  · simp only [if_neg hnull]
    cases hnot : Operand.after? "not:" operand with
    | some rest => exact applyNegated_leaves hnull hnot
    | none =>
        dsimp only
        split
        · exact leaves_mark Mark.Says.none
        · rename_i hne
          refine applyOperand_leaves ⟨fun hempty => hne (by rw [hempty]; rfl), fun _ htests => ?_⟩
          exact htests.elim hnull fun h => by rw [hnot] at h; cases h

theorem addClause_skipped (h : Clause.read? text = none) : addClause s entity tree text = .ok tree := by
  unfold Clause.read? at h
  unfold addClause
  rcases hcut : cutAt '=' text with ⟨key, _ | operand⟩ <;> rw [hcut] at h
  · rfl
  · cases h

/-- A clause on a field of an entity that is applied leaves its mark, on this tree as on every other one. -/
theorem applyClause_mark (h : applyClause s entity name operand tree = .ok next) :
    ∃ e field mark, s.entity entity = .ok e ∧ e.field? name = some field ∧ Mark.Says field operand mark ∧
      next = mark.on tree ∧ ∀ other, applyClause s entity name operand other = .ok (mark.on other) := by
  cases he : s.entity entity with
  | error failure =>
      rw [applyClause, he] at h
      cases h
  | ok e =>
      cases hf : e.field? name with
      | none =>
          simp only [applyClause, he, bind, Except.bind, hf] at h
          cases h
      | some field =>
          have hleaves : Leaves (applyClause s entity name operand) (Mark.Says field operand) := applyClause_leaves he hf
          obtain ⟨outcome, hchange, hmark⟩ := hleaves
          rw [hchange] at h
          cases outcome with
          | error failure => cases h
          | ok mark =>
              cases h
              exact ⟨e, field, mark, rfl, hf, hmark mark rfl, rfl, hchange⟩

/-! ## Paths -/

/-- What a run at the rest of a path makes of a tree, by what is there for the first relation of the path. -/
inductive Enters (run : Object → Except Failure Object) (into : Except Failure Unit) (r : Relation) (tree : Object) :
    Object → Prop
  | built {inner : Object} (hget : Object.get tree r.name = .null) (hrun : run [] = .ok inner) :
    Enters run into r tree
      (Object.set r.name (if r.isList then .object [("some", .object inner)] else .object inner) tree)
  | inside {existing inner inner' : Object} (hget : Object.get tree r.name = .object existing)
    (hsome : Object.get? "some" existing = some (.object inner)) (hrun : run inner = .ok inner') :
    Enters run into r tree (Object.set r.name (.object (Object.set "some" (.object inner') existing)) tree)
  | through {existing inner : Object} (hget : Object.get tree r.name = .object existing)
    (hsome : Object.get? "some" existing = none) (hrun : run existing = .ok inner) :
    Enters run into r tree (Object.set r.name (.object inner) tree)
  | kept {existing : Object} {v : Value} (hget : Object.get tree r.name = .object existing)
    (hsome : Object.get? "some" existing = some v) (hv : v.isObject = false) (hinto : into = .ok ()) :
    Enters run into r tree tree

theorem alongPath_cons_ok_iff : alongPath s root change (name :: path) entity tree = .ok next ↔
    ∃ e r, s.entity entity = .ok e ∧ e.relation? name = some r ∧
      Enters (alongPath s root change path r.target) (intoTruth s root change path r.target) r tree next := by
  rw [alongPath]
  constructor
  · intro hnext
    obtain ⟨found, hr, hnext⟩ := bind_ok_iff.mp hnext
    obtain ⟨e, he, hr⟩ := Schema.relation?_ok_iff.mp hr
    cases found with
    | none => cases hnext
    | some r =>
        refine ⟨e, r, he, hr, ?_⟩
        dsimp only at hnext
        split at hnext
        · obtain ⟨inner, hrun, hnext⟩ := bind_ok_iff.mp hnext
          cases hnext
          exact .built ‹_› hrun
        · split at hnext
          · obtain ⟨inner, hrun, hnext⟩ := bind_ok_iff.mp hnext
            cases hnext
            exact .inside ‹_› ‹_› hrun
          · rename_i v hother hsome
            obtain ⟨_, hinto, hnext⟩ := bind_ok_iff.mp hnext
            cases hnext
            refine .kept ‹_› hsome ?_ hinto
            cases v with
            | object inner => exact absurd rfl (hother inner)
            | _ => rfl
          · obtain ⟨inner, hrun, hnext⟩ := bind_ok_iff.mp hnext
            cases hnext
            exact .through ‹_› ‹_› hrun
        · cases hnext
  · rintro ⟨e, r, he, hr, henters⟩
    rw [Schema.relation?_ok_iff.mpr ⟨e, he, hr⟩]
    simp only [bind, Except.bind]
    cases henters with
    | built hget hrun => simp only [hget, hrun]; rfl
    | inside hget hsome hrun => simp only [hget, hsome, hrun]; rfl
    | through hget hsome hrun => simp only [hget, hsome, hrun]; rfl
    | @kept existing v hget hsome hv hinto =>
        simp only [hget, hsome]
        cases v with
        | object _ => cases hv
        | _ => simp only [hinto]; rfl

theorem alongPath_cons_ok (hnext : alongPath s root change (name :: path) entity tree = .ok next) :
    ∃ e r, s.entity entity = .ok e ∧ e.relation? name = some r ∧ r.name = name ∧
      Enters (alongPath s root change path r.target) (intoTruth s root change path r.target) r tree next := by
  obtain ⟨e, r, he, hr, henters⟩ := alongPath_cons_ok_iff.mp hnext
  exact ⟨e, r, he, hr, by simpa using List.find?_some hr, henters⟩

/-- On the way a member is set, or nothing is, whatever the other members of the tree are. -/
theorem Enters.mark {run : Object → Except Failure Object} {into : Except Failure Unit} {r : Relation}
    (h : Enters run into r tree next) : ∃ mark : Mark, (mark = .none ∨ ∃ v, mark = .member r.name v) ∧
      next = mark.on tree ∧
      ∀ other, Object.get other r.name = Object.get tree r.name → Enters run into r other (mark.on other) := by
  cases h with
  | built hget hrun => exact ⟨_, .inr ⟨_, rfl⟩, rfl, fun other hother => .built (hother.trans hget) hrun⟩
  | inside hget hsome hrun => exact ⟨_, .inr ⟨_, rfl⟩, rfl, fun other hother => .inside (hother.trans hget) hsome hrun⟩
  | through hget hsome hrun => exact ⟨_, .inr ⟨_, rfl⟩, rfl, fun other hother => .through (hother.trans hget) hsome hrun⟩
  | kept hget hsome hv hinto => exact ⟨.none, .inl rfl, rfl, fun other hother => .kept (hother.trans hget) hsome hv hinto⟩

/-- A clause is applied at the end of its path. One without a path needs its field to be there. -/
theorem addClause_read (hread : Clause.read? text = some clause) : addClause s entity tree text =
    s.entity entity >>= fun e =>
      if clause.path.isEmpty ∧ !e.hasField clause.name then
        throw (.validation "invalid_filter_field" (some [("field", .text clause.name)]))
      else alongPath s entity (fun entity => applyClause s entity clause.name clause.operand) clause.path entity tree := by
  unfold Clause.read? at hread
  unfold addClause
  rcases hcut : cutAt '=' text with ⟨key, _ | operand⟩ <;> rw [hcut] at hread <;> cases hread
  rfl

theorem addClause_eq (he : s.entity entity = .ok e) (hread : Clause.read? text = some clause) :
    addClause s entity tree text = if clause.path.isEmpty ∧ !e.hasField clause.name then
        throw (.validation "invalid_filter_field" (some [("field", .text clause.name)]))
      else alongPath s entity (fun entity => applyClause s entity clause.name clause.operand) clause.path entity tree := by
  rw [addClause_read hread, he]
  rfl

/-- A clause that is added is applied at the end of its path. -/
theorem addClause_ok (h : Clause.read? text = some clause) (hadd : addClause s entity tree text = .ok next) :
    alongPath s entity (fun entity => applyClause s entity clause.name clause.operand) clause.path entity tree =
      .ok next := by
  rw [addClause_read h] at hadd
  obtain ⟨e, _, hadd⟩ := bind_ok_iff.mp hadd
  split at hadd
  · cases hadd
  · exact hadd

theorem addClause_along (he : s.entity entity = .ok e) (hread : Clause.read? text = some clause)
    (hknown : clause.path = [] → e.hasField clause.name = true) :
    addClause s entity tree text =
      alongPath s entity (fun entity => applyClause s entity clause.name clause.operand) clause.path entity tree := by
  rw [addClause_eq he hread]
  refine if_neg ?_
  rintro ⟨hpath, hunknown⟩
  rw [hknown (List.isEmpty_iff.mp hpath)] at hunknown
  cases hunknown

/-- A clause without a path changes the field of its entity, if there is one. -/
theorem addClause_own (he : s.entity entity = .ok e) (hread : Clause.read? text = some clause)
    (hpath : clause.path = []) (hf : e.field? clause.name = some field) :
    addClause s entity tree text = applyClause s entity clause.name clause.operand tree := by
  rw [addClause_along he hread fun _ => by rw [Entity.hasField, hf]; rfl, hpath, alongPath]

/-- A clause without a path always fails, or always leaves the same mark, if the entity has its field. -/
theorem addClause_leaves (he : s.entity entity = .ok e) (hread : Clause.read? text = some clause)
    (hpath : clause.path = []) (hf : e.field? clause.name = some field) :
    Leaves (fun tree => addClause s entity tree text) (Mark.Says field clause.operand) := by
  have hchange : (fun tree => addClause s entity tree text) = applyClause s entity clause.name clause.operand :=
    funext fun _ => addClause_own he hread hpath hf
  rw [hchange]
  exact applyClause_leaves he hf

end Filter

end RecordGraph
