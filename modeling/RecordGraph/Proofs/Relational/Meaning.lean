import RecordGraph.Proofs.Failure.Success
import RecordGraph.Relational.Where

/-!
# What filters mean

Which rows satisfy a filter: those that are selected by the condition it is read as. A filter that
cannot be read is satisfied by no row.
-/

namespace RecordGraph

namespace Truth

variable {a b : Truth}

@[simp] theorem holds_and (t : Truth) : Truth.and .holds t = t := by cases t <;> rfl

@[simp] theorem and_holds (t : Truth) : Truth.and t .holds = t := by cases t <;> rfl

theorem and_holds_iff : a.and b = .holds ↔ a = .holds ∧ b = .holds := by
  cases a <;> cases b <;> simp [Truth.and]

theorem or_holds_iff : a.or b = .holds ↔ a = .holds ∨ b = .holds := by
  cases a <;> cases b <;> simp [Truth.or, Truth.and, Truth.not]

theorem ofBool_holds_iff {p : Bool} : ofBool p = .holds ↔ p = true := by
  cases p <;> simp [ofBool]

end Truth

namespace Condition

variable {db : Database} {row : Row} {conditions : List Condition}

theorem evalAll_holds_iff : evalAll db row conditions = .holds ↔
    ∀ c ∈ conditions, c.eval db row = .holds := by
  induction conditions with
  | nil => simp [evalAll]
  | cons c cs ih => simp [evalAll, Truth.and_holds_iff, ih]

theorem mem_operandsOf {ks : List Condition} {o : Except Failure Cell} :
    o ∈ operandsOf ks ↔ ∃ k ∈ ks, o ∈ k.operands := by
  induction ks with
  | nil => simp [operandsOf]
  | cons k ks ih => simp [operandsOf, ih]

/-- The operands of a conjunction are those of its parts; where it is settled without them it has none. -/
theorem mem_operands_all {o : Except Failure Cell} (h : o ∈ (all conditions).operands) :
    ∃ c ∈ conditions, o ∈ c.operands := by
  rw [operands] at h
  split at h
  · cases h
  · exact mem_operandsOf.mp h

/-- A condition whose operands are all taken is taken. -/
theorem bind_ok {cond : Condition} (h : ∀ o ∈ cond.operands, ∃ cell, o = .ok cell) : cond.bind = .ok () := by
  have hloop {os : List (Except Failure Cell)} (hall : ∀ o ∈ os, ∃ cell, o = .ok cell) :
      (forIn os PUnit.unit fun o _ => do
        let _ ← o
        pure (ForInStep.yield PUnit.unit) : Except Failure PUnit) = .ok ⟨⟩ := by
    induction os with
    | nil => rfl
    | cons o os ih =>
        obtain ⟨cell, rfl⟩ := hall o List.mem_cons_self
        rw [List.forIn_cons]
        exact ih fun o hin => hall o (List.mem_cons_of_mem _ hin)
  unfold bind
  dsimp only
  rw [hloop fun o ho => (List.mem_append.mp ho).elim (fun ho => h o (List.mem_filter.mp ho).1) (h o)]
  rfl

theorem selects_iff {c : Condition} : c.selects db row = true ↔ c.eval db row = .holds := by
  simp [selects]

theorem selects_all_iff : (all conditions).selects db row = true ↔
    ∀ c ∈ conditions, c.selects db row = true := by
  simp [selects, eval, evalAll_holds_iff]

end Condition

namespace Column

variable {column : Column} {op : String} {v : Value} {ops : Object} {cs : List Condition}

theorem condition_plain (h : v.isObject = false) : column.condition v = column.equalTo v := by
  cases v with
  | object _ => cases h
  | _ => rfl

theorem operation_plain (h : v.isObject = false) : column.operation op v = column.operator op v := by
  cases v with
  | object _ => cases h
  | _ => simp only [operation]

theorem operators_ok_iff : column.operators ops = .ok cs ↔
    List.Forall₂ (fun kv cond => column.operation kv.1 kv.2 = .ok cond) ops cs := by
  induction ops generalizing cs with
  | nil =>
      rw [operators, pure_ok_iff, List.forall₂_nil_left_iff]
      exact eq_comm
  | cons kv rest ih =>
      obtain ⟨op, v⟩ := kv
      simp only [operators, cons_ok_iff, List.forall₂_cons_left_iff, ih]

end Column

/-- The condition of a member that names a column or a whole key. -/
def Model.cellCondition (m : Model) (key : String) (v : Value) : Except Failure Condition :=
  match m.column? key with
  | some column => column.condition v
  | none =>
    match m.compoundKey? v with
    | some members => Condition.all <$> members.mapM fun (column, v) => column.equalTo v
    | none => throw (.faultOf .queryValidation ("Unknown field '" ++ key ++ "' on " ++ m.name)
        [("target", .text key)])

namespace Catalog

variable (c : Catalog) (m : Model)

/-! ## One member at a time -/

/-- The conditions that are combined by a logical key. -/
def parts : Value → Except Failure (List Condition)
  | .null => pure []
  | .list vs => c.conditionList m vs
  | v => (fun part => [part]) <$> c.condition m v

/-- The condition of a member that names a link. -/
def linkCondition (l : Link) (v : Value) : Except Failure Condition := do
  let target ← c.named l.target
  let invalid := Failure.faultOf .queryValidation ("Invalid filter for '" ++ l.name ++ "'")
  match v with
  | .object members =>
    let words := if l.isList then Link.quantifiers else Link.assertions
    if members.any fun (k, _) => words.contains k then
      Condition.all <$> c.linkConditions l target members
    else (fun cs => .linked l (.all cs)) <$> c.conditions target members
  | .null => if l.isList then throw invalid else pure (.negation l.exists_)
  | _ => throw invalid

/-- The condition of one member of a filter tree. -/
def memberCondition (key : String) (v : Value) : Except Failure Condition :=
  match key with
  | "AND" => Condition.all <$> c.parts m v
  | "OR" => (fun ps => if ps.isEmpty then .always else .any ps) <$> c.parts m v
  | "NOT" => (fun ps => .all (ps.map .negation)) <$> c.parts m v
  | key =>
    match m.link? key with
    | some l => c.linkCondition l v
    | none => m.cellCondition key v

/-- The condition of one word on the rows of a link. -/
def wordCondition (l : Link) (target : Model) (word : String) (v : Value) : Except Failure Condition :=
  match l.isList, word with
  | true, "some" => .linked l <$> c.condition target v
  | true, "none" => (fun p => .negation (.linked l p)) <$> c.condition target v
  | true, "every" => (fun p => .negation (.linked l (.negation p))) <$> c.condition target v
  | false, "is" => if v.isNull then pure (.negation l.exists_) else .linked l <$> c.condition target v
  | false, "isNot" =>
    if v.isNull then pure l.exists_ else (fun p => .negation (.linked l p)) <$> c.condition target v
  | _, word => throw (.faultOf .queryValidation ("Unknown relation filter '" ++ word ++ "'"))

variable {c m} {db : Database} {row : Row} {key : String} {v : Value} {o rest : Object}

theorem conditions_cons : c.conditions m ((key, v) :: rest) =
    (do return (← c.memberCondition m key v) :: (← c.conditions m rest)) := by
  by_cases ha : key = "AND"
  · subst ha
    cases v <;> simp only [conditions, memberCondition, parts]
  by_cases ho : key = "OR"
  · subst ho
    cases v <;> simp only [conditions, memberCondition, parts]
  by_cases hn : key = "NOT"
  · subst hn
    cases v <;> simp only [conditions, memberCondition, parts]
  simp only [conditions, memberCondition]
  cases m.link? key with
  | none =>
      simp only [Model.cellCondition]
      cases m.column? key with
      | some column => rfl
      | none => cases m.compoundKey? v <;> rfl
  | some l =>
      simp only [linkCondition, bind_assoc]
      congr 1; funext target
      cases v with
      | object members =>
          dsimp only
          generalize List.any members _ = worded
          cases worded <;> rfl
      | null => dsimp only; split <;> rfl
      | _ => rfl

theorem linkConditions_cons {l : Link} {target : Model} {word : String} :
    c.linkConditions l target ((word, v) :: rest) =
      (do return (← c.wordCondition l target word v) :: (← c.linkConditions l target rest)) := by
  simp only [linkConditions, wordCondition]
  cases l.isList with
  | true =>
      by_cases hs : word = "some"
      · subst hs; rfl
      by_cases hn : word = "none"
      · subst hn; rfl
      by_cases he : word = "every"
      · subst he; rfl
      -- any other word is refused
      simp only [hs, hn, he, imp_self]
      rfl
  | false =>
      by_cases hi : word = "is"
      · subst hi; cases v.isNull <;> rfl
      by_cases hn : word = "isNot"
      · subst hn; cases v.isNull <;> rfl
      simp only [hi, hn, imp_self]
      rfl

/-- The members that stand for columns and links. -/
theorem memberCondition_name (h : key ∉ ["AND", "OR", "NOT"]) :
    c.memberCondition m key v = match m.link? key with
      | some l => c.linkCondition l v
      | none => m.cellCondition key v := by
  simp only [List.mem_cons, List.not_mem_nil, or_false, not_or] at h
  obtain ⟨_, _, _⟩ := h
  simp only [memberCondition]

theorem conditions_ok_iff {cs : List Condition} : c.conditions m o = .ok cs ↔
    List.Forall₂ (fun kv cond => c.memberCondition m kv.1 kv.2 = .ok cond) o cs := by
  induction o generalizing cs with
  | nil =>
      rw [conditions, pure_ok_iff, List.forall₂_nil_left_iff]
      exact eq_comm
  | cons kv rest ih =>
      obtain ⟨key, v⟩ := kv
      simp only [conditions_cons, cons_ok_iff, List.forall₂_cons_left_iff, ih]

theorem linkConditions_ok_iff {l : Link} {target : Model} {cs : List Condition} :
    c.linkConditions l target o = .ok cs ↔
      List.Forall₂ (fun kv cond => c.wordCondition l target kv.1 kv.2 = .ok cond) o cs := by
  induction o generalizing cs with
  | nil =>
      rw [linkConditions, pure_ok_iff, List.forall₂_nil_left_iff]
      exact eq_comm
  | cons kv rest ih =>
      obtain ⟨word, v⟩ := kv
      simp only [linkConditions_cons, cons_ok_iff, List.forall₂_cons_left_iff, ih]

theorem conditionList_ok_iff {vs : List Value} {cs : List Condition} :
    c.conditionList m vs = .ok cs ↔ List.Forall₂ (fun v cond => c.condition m v = .ok cond) vs cs := by
  induction vs generalizing cs with
  | nil =>
      rw [conditionList, pure_ok_iff, List.forall₂_nil_left_iff]
      exact eq_comm
  | cons v vs ih =>
      simp only [conditionList, cons_ok_iff, List.forall₂_cons_left_iff, ih]

theorem parts_ok_iff {cs : List Condition} : c.parts m v = .ok cs ↔
    List.Forall₂ (fun item cond => c.condition m item = .ok cond) v.asItems cs := by
  rw [← conditionList_ok_iff]
  cases v with
  | null => simp [parts, Value.asItems, conditionList]
  | list vs => simp [parts, Value.asItems]
  | _ => simp only [parts, Value.asItems, conditionList, pure_bind, map_eq_pure_bind]

/-! ## Satisfaction -/

/-- Whether a row of a model satisfies a filter. -/
def Satisfies (c : Catalog) (m : Model) (db : Database) (row : Row) (v : Value) : Prop :=
  ∃ cond, c.condition m v = .ok cond ∧ cond.selects db row = true

/-- Whether a row satisfies one member of a filter. -/
def SatisfiesMember (c : Catalog) (m : Model) (db : Database) (row : Row) (kv : String × Value) : Prop :=
  ∃ cond, c.memberCondition m kv.1 kv.2 = .ok cond ∧ cond.selects db row = true

/-- All of the conditions that a list of filters is read as hold if each filter does. -/
theorem exists_all_selects_iff {α : Type} {read : α → Except Failure Condition} {xs : List α} :
    (∃ cs, List.Forall₂ (fun x cond => read x = .ok cond) xs cs ∧
      (Condition.all cs).selects db row = true) ↔
    ∀ x ∈ xs, ∃ cond, read x = .ok cond ∧ cond.selects db row = true := by
  simp only [Condition.selects_all_iff]
  exact exists_forall₂_iff

theorem satisfies_object_iff :
    c.Satisfies m db row (.object o) ↔ ∀ kv ∈ o, c.SatisfiesMember m db row kv := by
  simp only [Satisfies, SatisfiesMember, ← exists_all_selects_iff, ← conditions_ok_iff, condition,
    map_ok_iff]
  constructor
  · rintro ⟨_, ⟨cs, hcs, rfl⟩, hall⟩
    exact ⟨cs, hcs, hall⟩
  · rintro ⟨cs, hcs, hall⟩
    exact ⟨_, ⟨cs, hcs, rfl⟩, hall⟩

/-- The items under `AND` hold each on its own. -/
theorem satisfiesMember_and_iff : c.SatisfiesMember m db row ("AND", v) ↔
    ∀ item ∈ v.asItems, c.Satisfies m db row item := by
  simp only [Satisfies, SatisfiesMember, ← exists_all_selects_iff, ← parts_ok_iff, memberCondition,
    map_ok_iff]
  constructor
  · rintro ⟨_, ⟨cs, hcs, rfl⟩, hall⟩
    exact ⟨cs, hcs, hall⟩
  · rintro ⟨cs, hcs, hall⟩
    exact ⟨_, ⟨cs, hcs, rfl⟩, hall⟩

/-- The items under `NOT` are denied each on its own. -/
theorem satisfiesMember_not_iff : c.SatisfiesMember m db row ("NOT", v) ↔
    ∀ item ∈ v.asItems, ∃ cond, c.condition m item = .ok cond ∧ cond.negation.selects db row = true := by
  simp only [SatisfiesMember, ← exists_forall₂_iff, ← parts_ok_iff, memberCondition, map_ok_iff]
  constructor
  · rintro ⟨_, ⟨cs, hcs, rfl⟩, hall⟩
    exact ⟨cs, hcs, by simpa [Condition.selects_all_iff] using hall⟩
  · rintro ⟨cs, hcs, hall⟩
    exact ⟨_, ⟨cs, hcs, rfl⟩, by simpa [Condition.selects_all_iff] using hall⟩

theorem satisfies_empty : c.Satisfies m db row (.object []) :=
  satisfies_object_iff.mpr (by simp)

end Catalog

end RecordGraph
