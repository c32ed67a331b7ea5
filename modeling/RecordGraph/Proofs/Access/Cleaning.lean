import RecordGraph.Proofs.Access.Merge
import RecordGraph.Proofs.Relational.Refinement

/-!
# Cleaned filters

Cleaning a filter leaves parts out and unwraps others. Over a model this changes nothing, or only
selects fewer rows, as long as every part that is left out held of every row: an empty list of
conditions does, an empty list of values that a column is to be among does not.
-/

namespace RecordGraph

namespace Guard

/-! ## What is left of a filter -/

theorem clean_ne_null {v w : Value} (h : clean v = some w) : w ≠ .null := by
  cases v with
  | list items => obtain ⟨_, rfl⟩ := clean_list_iff.mp h; simp
  | object members => exact (clean_object_iff.mp h).2.1
  | null => simp [clean] at h
  | _ => simp only [clean, Option.some.injEq] at h; subst h; simp

theorem clean_scalar {v : Value} (hl : v.isList = false) (ho : v.isObject = false) (hn : v ≠ .null) :
    clean v = some v := by
  cases v with
  | list => cases hl
  | object => cases ho
  | null => exact absurd rfl hn
  | _ => rfl

theorem mem_cleanItems {items : List Value} {w : Value} :
    w ∈ cleanItems items ↔ ∃ v ∈ items, clean v = some w := by
  induction items with
  | nil => simp [cleanItems]
  | cons v vs ih =>
      rw [cleanItems]
      cases hv : clean v with
      | none => simp [hv, ih]
      | some u => simp [hv, ih, eq_comm]

theorem cleanMembers_null {key : String} {rest : Object} :
    cleanMembers ((key, .null) :: rest) = (key, .null) :: cleanMembers rest := by
  simp [cleanMembers]

theorem cleanMembers_cons {key : String} {v : Value} {rest : Object} (h : v ≠ .null) :
    cleanMembers ((key, v) :: rest) =
      match clean v with
      | some w => (key, w) :: cleanMembers rest
      | none => cleanMembers rest := by
  cases hc : clean v <;> simp only [cleanMembers, hc]

theorem mem_cleanMembers {members : Object} {key : String} {w : Value}
    (h : (key, w) ∈ cleanMembers members) :
    ∃ v, (key, v) ∈ members ∧ (v = .null ∧ w = .null ∨ clean v = some w) := by
  induction members with
  | nil => simp [cleanMembers] at h
  | cons kv rest ih =>
      obtain ⟨k, v⟩ := kv
      have hrest (h : (key, w) ∈ cleanMembers rest) : ∃ u, (key, u) ∈ (k, v) :: rest ∧
          (u = .null ∧ w = .null ∨ clean u = some w) := by
        obtain ⟨u, hu, hc⟩ := ih h
        exact ⟨u, List.mem_cons_of_mem _ hu, hc⟩
      by_cases hv : v = .null
      · subst hv
        rw [cleanMembers_null] at h
        rcases List.mem_cons.mp h with he | h
        · cases he
          exact ⟨.null, by simp, .inl ⟨rfl, rfl⟩⟩
        · exact hrest h
      · rw [cleanMembers_cons hv] at h
        cases hc : clean v with
        | none => exact hrest (by simpa [hc] using h)
        | some u =>
            rw [hc] at h
            rcases List.mem_cons.mp h with he | h
            · cases he
              exact ⟨v, by simp, .inr hc⟩
            · exact hrest h

/-- A tree without logical keys is not unwrapped. -/
theorem unwrap_of_not_logical {tree : Object} (h : ∀ kv ∈ tree, isLogical kv.1 = false) :
    unwrap tree = .object tree := by
  unfold unwrap
  split
  · rename_i key condition
    simp [h (key, .list [condition]) (by simp)]
  · rfl

/-- Either a tree is one logical key over one condition, or it stays as it is. -/
theorem unwrap_cases (tree : Object) : unwrap tree = .object tree ∨
    ∃ key condition, tree = [(key, .list [condition])] ∧ isLogical key = true ∧ unwrap tree = condition := by
  unfold unwrap
  split
  · rename_i key condition
    cases hk : isLogical key with
    | true => exact .inr ⟨key, condition, rfl, hk, rfl⟩
    | false => exact .inl rfl
  · exact .inl rfl

end Guard

/-! ## What may be cleaned -/

/-- An operator that is left out says nothing, and an operand that stays is not changed. -/
inductive Column.CleanableOperation (column : Column) : String → Value → Prop
  | null {op} : CleanableOperation column op .null
  | dropped {op v cond} (hd : Guard.clean v = none) (hc : column.operation op v = .ok cond)
      (hi : cond.Idle) : CleanableOperation column op v
  | same {op v} (h : Guard.clean v = some v) : CleanableOperation column op v
  | denied {nested} (hk : Guard.clean (.object nested) ≠ none)
      (h : ∀ op v, (op, v) ∈ nested → CleanableOperation column op v) :
      CleanableOperation column "not" (.object nested)

/-- What a column is compared with loses nothing that was said. -/
inductive Column.Cleanable (column : Column) : Value → Prop
  | same {v} (h : Guard.clean v = some v) : Cleanable column v
  | operators {ops} (hk : Guard.clean (.object ops) ≠ none)
      (h : ∀ op v, (op, v) ∈ ops → column.CleanableOperation op v) : Cleanable column (.object ops)

/-- No item is left out of a list. -/
def Guard.Lossless (v : Value) : Prop := ∀ item ∈ v.asItems, Guard.clean item ≠ none

def Link.words (l : Link) : List String := if l.isList then Link.quantifiers else Link.assertions

/-- Whether the filter of a link says of how many rows, or whether, it is to hold. -/
def Link.isWorded (l : Link) (members : Object) : Bool := members.any fun kv => l.words.contains kv.1

/-- What a word makes of a condition on the linked rows. -/
def Link.worded (l : Link) (word : String) (p : Condition) : Condition :=
  if word = "some" ∨ word = "is" then .linked l p
  else if word = "none" ∨ word = "isNot" then .negation (.linked l p)
  else .negation (.linked l (.negation p))

mutual

/-- Whatever cleaning leaves out of a filter says nothing. -/
inductive Catalog.Cleanable (c : Catalog) : Fit → Model → Value → Prop
  | absent {fit m v} (h : v.isObject = false) : Cleanable c fit m v
  | object {fit m members} (h : ∀ key v, (key, v) ∈ members → CleanableMember c fit m key v) :
      Cleanable c fit m (.object members)

/-- A member that is left out says nothing, and one that stays loses nothing that was said. A denied
list must keep all of its items, and so must alternatives that are denied further out. -/
inductive Catalog.CleanableMember (c : Catalog) : Fit → Model → String → Value → Prop
  | null {fit m key} : CleanableMember c fit m key .null
  | dropped {fit m key v cond} (hd : Guard.clean v = none) (hc : c.memberCondition m key v = .ok cond)
      (hi : cond.Idle) : CleanableMember c fit m key v
  | conjunction {fit m v} (hk : Guard.clean v ≠ none) (h : ∀ item ∈ v.asItems, Cleanable c fit m item) :
      CleanableMember c fit m "AND" v
  | alternative {fit m v} (hk : Guard.clean v ≠ none) (h : ∀ item ∈ v.asItems, Cleanable c fit m item)
      (hl : fit = .exact → Guard.Lossless v) : CleanableMember c fit m "OR" v
  | denial {fit m v} (hk : Guard.clean v ≠ none) (h : ∀ item ∈ v.asItems, Cleanable c .exact m item)
      (hl : Guard.Lossless v) : CleanableMember c fit m "NOT" v
  | linked {fit m key l target members} (hk : Guard.clean (.object members) ≠ none)
      (hn : key ∉ ["AND", "OR", "NOT"]) (hl : m.link? key = some l) (ht : c.named l.target = .ok target)
      (hw : l.isWorded members = false) (h : Cleanable c fit target (.object members))
      (ho : ∀ o, Guard.clean (.object members) = some (.object o) → l.isWorded o = false) :
      CleanableMember c fit m key (.object members)
  | worded {fit m key l target members} (hk : Guard.clean (.object members) ≠ none)
      (hn : key ∉ ["AND", "OR", "NOT"]) (hl : m.link? key = some l) (ht : c.named l.target = .ok target)
      (hw : l.isWorded members = true)
      (h : ∀ word v, (word, v) ∈ members → CleanableWord c fit l target word v) :
      CleanableMember c fit m key (.object members)
  | column {fit m key column v} (hn : key ∉ ["AND", "OR", "NOT"]) (hl : m.link? key = none) (hc : m.column? key = some column)
      (h : column.Cleanable v) : CleanableMember c fit m key v
  | key {fit m key v} (hn : key ∉ ["AND", "OR", "NOT"]) (hl : m.link? key = none)
      (hc : m.column? key = none) (h : Guard.clean v = some v) : CleanableMember c fit m key v

/-- The same for the words on the rows of a link: under a word that denies, outcomes must stay. -/
inductive Catalog.CleanableWord (c : Catalog) : Fit → Link → Model → String → Value → Prop
  | null {fit l target word} : CleanableWord c fit l target word .null
  | dropped {fit l target word v cond} (hd : Guard.clean v = none)
      (hc : c.wordCondition l target word v = .ok cond) (hi : cond.Idle) :
      CleanableWord c fit l target word v
  | holds {fit l target word v} (hk : Guard.clean v ≠ none) (hw : word = "some" ∨ word = "is") (h : Cleanable c fit target v) :
      CleanableWord c fit l target word v
  | denied {fit l target word v} (hk : Guard.clean v ≠ none) (h : Cleanable c .exact target v) :
      CleanableWord c fit l target word v

end

/-! ## Lists of members -/

/-- The conditions of the members that cleaning keeps stand for those of all members. -/
theorem Guard.kept_cleanMembers {read : String → Value → Except Failure Condition} {fit : Fit}
    {members : Object} {cs ds : List Condition}
    (h : ∀ key v, (key, v) ∈ members → v ≠ .null →
      (clean v = none → ∃ cond, read key v = .ok cond ∧ cond.Idle) ∧
      ∀ w c d, clean v = some w → read key v = .ok c → read key w = .ok d → Condition.Refines fit c d)
    (hc : List.Forall₂ (fun kv cond => read kv.1 kv.2 = .ok cond) members cs)
    (hd : List.Forall₂ (fun kv cond => read kv.1 kv.2 = .ok cond) (cleanMembers members) ds) :
    Condition.Kept fit cs ds := by
  induction hc generalizing ds with
  | nil =>
      cases hd
      exact .nil
  | @cons kv c rest cs hkv _ ih =>
      obtain ⟨key, v⟩ := kv
      have hrest {ds : List Condition} := @ih ds fun key v hm => h key v (List.mem_cons_of_mem _ hm)
      by_cases hv : v = .null
      · subst hv
        rw [cleanMembers_null] at hd
        cases hd with
        | cons hkv' hds =>
            rw [hkv] at hkv'
            cases hkv'
            exact .keep (.refl _) (hrest hds)
      · obtain ⟨hnone, hsome⟩ := h key v (by simp) hv
        rw [cleanMembers_cons hv] at hd
        cases hcl : clean v with
        | none =>
            obtain ⟨cond, hcond, hidle⟩ := hnone hcl
            rw [hkv] at hcond
            cases hcond
            rw [hcl] at hd
            exact .drop hidle (hrest hd)
        | some w =>
            rw [hcl] at hd
            cases hd with
            | cons hkv' hds => exact .keep (hsome w _ _ hcl hkv hkv') (hrest hds)

/-! ## Columns -/

namespace Column

variable {column : Column} {ops : Object} {cs ds : List Condition}

/-- No operator goes by the name of a logical key. -/
theorem operation_not_logical {op : String} {v : Value} {cond : Condition}
    (h : column.operation op v = .ok cond) : Guard.isLogical op = false := by
  by_contra hop
  have hop : op = "AND" ∨ op = "OR" := by
    simpa [Guard.isLogical, or_iff_not_imp_left] using hop
  rcases hop with rfl | rfl <;> cases v <;> simp [operation, operator, throw_ok_iff] at h

/-- The operators that are left of a column's filter are not unwrapped. -/
theorem clean_operators {w : Value} (h : column.operators ops = .ok cs)
    (hw : Guard.clean (.object ops) = some w) : w = .object (Guard.cleanMembers ops) := by
  obtain ⟨_, _, rfl⟩ := Guard.clean_object_iff.mp hw
  refine Guard.unwrap_of_not_logical fun kv hkv => ?_
  obtain ⟨v, hv, _⟩ := Guard.mem_cleanMembers (w := kv.2) hkv
  obtain ⟨cond, _, hcond⟩ := forall₂_partner (operators_ok_iff.mp h) hv
  exact operation_not_logical hcond

theorem operators_kept (h : ∀ op v, (op, v) ∈ ops → column.CleanableOperation op v)
    (hv : ∀ op v, (op, v) ∈ ops → ∀ w c d, Guard.clean v = some w → column.operation op v = .ok c →
      column.operation op w = .ok d → c.Refines .exact d)
    (hc : column.operators ops = .ok cs) (hd : column.operators (Guard.cleanMembers ops) = .ok ds) :
    Condition.Kept .exact cs ds := by
  refine Guard.kept_cleanMembers (fun op v hm hne => ⟨fun hnone => ?_, hv op v hm⟩)
    (operators_ok_iff.mp hc) (operators_ok_iff.mp hd)
  cases h op v hm with
  | null => exact absurd rfl hne
  | dropped _ hcond hidle => exact ⟨_, hcond, hidle⟩
  | same hs => rw [hnone] at hs; cases hs
  | denied hk => exact absurd hnone hk

/-- An operator with what is left of its operand has the same outcome. -/
theorem CleanableOperation.refines {v : Value} : ∀ {op : String}, column.CleanableOperation op v →
    ∀ w c d, Guard.clean v = some w → column.operation op v = .ok c → column.operation op w = .ok d →
      c.Refines .exact d := by
  have hsame {v w : Value} {op : String} {c d : Condition} (hs : Guard.clean v = some v)
      (hw : Guard.clean v = some w) (hc : column.operation op v = .ok c)
      (hd : column.operation op w = .ok d) : c.Refines .exact d := by
    rw [hw] at hs; cases hs
    rw [hc] at hd; cases hd
    exact .refl _
  induction v using Value.induct with
  | step v ih =>
      intro op h w c d hw hc hd
      cases h with
      | null => cases hw
      | dropped hnone => rw [hw] at hnone; cases hnone
      | same hs => exact hsame hs hw hc hd
      | denied _ hm =>
          simp only [operation, ↓reduceIte, map_ok_iff] at hc
          obtain ⟨cs, hcs, rfl⟩ := hc
          rw [clean_operators hcs hw] at hd
          simp only [operation, ↓reduceIte, map_ok_iff] at hd
          obtain ⟨ds, hds, rfl⟩ := hd
          have hinner op v (hin : (op, v) ∈ _) := ih v (Value.sizeOf_member hin) (hm op v hin)
          exact (operators_kept hm hinner hcs hds).all.negation

/-- A column's filter with what is left of it has the same outcome. -/
theorem Cleanable.refines {v w : Value} {c d : Condition} (h : column.Cleanable v)
    (hw : Guard.clean v = some w) (hc : column.condition v = .ok c) (hd : column.condition w = .ok d) :
    c.Refines .exact d := by
  cases h with
  | same hs =>
      rw [hw] at hs; cases hs
      rw [hc] at hd; cases hd
      exact .refl _
  | operators _ hm =>
      simp only [condition, map_ok_iff] at hc
      obtain ⟨cs, hcs, rfl⟩ := hc
      rw [clean_operators hcs hw] at hd
      simp only [condition, map_ok_iff] at hd
      obtain ⟨ds, hds, rfl⟩ := hd
      exact (operators_kept hm (fun op v hin => (hm op v hin).refines) hcs hds).all

end Column

end RecordGraph
