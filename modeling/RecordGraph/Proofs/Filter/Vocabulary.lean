import RecordGraph.Proofs.Failure.Refusal
import RecordGraph.Proofs.Filter.Clauses
import RecordGraph.Proofs.Relational.Finding

/-!
# Filter texts in the words of the storage

The tree that a filter text is read as names columns with operators that apply to them, and links with trees for
the rows that they lead to. Such a tree is read as a condition, or a value in it does not read as its column takes it.
-/

namespace RecordGraph

/-- If there is a failure, it is a value that does not read as its column takes it. -/
def Accepted {α : Type} (x : Except Failure α) : Prop :=
  ∀ failure, x = .error failure → ∃ message details, failure = .faultOf .invalidValue message details

section Accepted

variable {α β : Type} {x : Except Failure α} {f : α → Except Failure β}

theorem accepted_ok {a : α} : Accepted (.ok a) := FailsOnly.ok

theorem Accepted.bind (hx : Accepted x) (hf : ∀ a, x = .ok a → Accepted (f a)) : Accepted (x >>= f) :=
  FailsOnly.bind hx hf

theorem Accepted.map (hx : Accepted x) {g : α → β} : Accepted (g <$> x) := FailsOnly.map hx

theorem accepted_mapM {items : List α} (h : ∀ item ∈ items, Accepted (f item)) : Accepted (items.mapM f) :=
  FailsOnly.mapM h

end Accepted

/-! ## Columns -/

namespace Column

open RecordGraph.Operand (Operator Comparator isOrdered)

variable {column : Column} {v w : Value} {vs : List Value} {op : String} {members : Object}

/-- A list that has no null beside lists and objects. -/
def Uniform (vs : List Value) : Prop :=
  vs.any Value.isNull = true → (vs.any fun v => v.isList || v.isObject) = false

theorem coerce_accepted : Accepted (column.coerce v) := by
  intro failure h
  unfold coerce at h
  split at h
  · cases h
  · cases h
    exact ⟨_, _, rfl⟩

theorem coerce?_shape {kind : ColumnKind} (h : kind.coerce? v = some w) :
    w.isNull = v.isNull ∧ (w.isList || w.isObject) = (v.isList || v.isObject) := by
  unfold ColumnKind.coerce? at h
  split at h
  all_goals first
    | (obtain ⟨_, _, rfl⟩ := Option.map_eq_some_iff.mp h; exact ⟨rfl, rfl⟩)
    | (cases h; exact ⟨rfl, rfl⟩)
    | skip
  rename_i x
  cases h
  cases hx : x.toInt? <;> exact ⟨rfl, rfl⟩

theorem coerce_shape (h : column.coerce v = .ok w) :
    w.isNull = v.isNull ∧ (w.isList || w.isObject) = (v.isList || v.isObject) := by
  unfold coerce at h
  split at h
  · rename_i hcoerce
    cases h
    exact coerce?_shape hcoerce
  · cases h

theorem coerce_ne_bool (hv : isOrdered v = true) (h : column.coerce v = .ok w) : ∀ b, w ≠ .bool b := by
  unfold coerce at h
  split at h
  · rename_i hcoerce
    cases h
    rintro b rfl
    unfold ColumnKind.coerce? at hcoerce
    split at hcoerce <;> simp_all [isOrdered]
    rename_i x _
    cases hx : x.toInt? <;> simp_all
  · cases h

theorem equalTo_accepted : Accepted (column.equalTo v) := by
  unfold equalTo
  split
  · exact accepted_ok
  · exact coerce_accepted.bind fun _ _ => accepted_ok

theorem unequalTo_accepted : Accepted (column.unequalTo v) := by
  unfold unequalTo
  split
  · exact accepted_ok
  · exact coerce_accepted.bind fun _ _ => accepted_ok

theorem ordered_accepted {comparison : Comparison} (hv : isOrdered v = true) : Accepted (column.ordered comparison v) := by
  apply coerce_accepted.bind
  intro w hw
  split
  · have hnull := (coerce_shape hw).1
    cases v with
    | null => cases hv
    | _ => cases hnull
  · rename_i b
    exact absurd rfl (coerce_ne_bool hv hw b)
  · exact accepted_ok

theorem oneOf_accepted (hvs : Uniform vs) : Accepted (column.oneOf vs) := by
  apply (accepted_mapM fun _ _ => coerce_accepted).bind
  intro ws hws
  have hshape := mapM_ok_forall₂ hws
  split
  · rename_i hnull
    obtain ⟨w, hw, hnull⟩ := List.any_eq_true.mp hnull
    obtain ⟨v, hv, hcoerce⟩ := forall₂_partner hshape.flip hw
    have hplain := hvs (List.any_eq_true.mpr ⟨v, hv, (coerce_shape hcoerce).1 ▸ hnull⟩)
    have hnone : (ws.any fun w => w.isList || w.isObject) = false := by
      apply List.any_eq_false.mpr
      intro w hw
      obtain ⟨v, hv, hcoerce⟩ := forall₂_partner hshape.flip hw
      rw [(coerce_shape hcoerce).2]
      exact List.any_eq_false.mp hplain v hv
    rw [if_neg (by simp [hnone])]
    exact accepted_ok
  · exact accepted_ok

theorem operators_accepted (h : ∀ kv ∈ members, Accepted (column.operation kv.1 kv.2)) :
    Accepted (column.operators members) := by
  induction members with
  | nil => exact accepted_ok
  | cons kv rest ih =>
      rw [operators]
      apply (h kv List.mem_cons_self).bind
      intro _ _
      apply (ih fun kv hin => h kv (List.mem_cons_of_mem _ hin)).bind
      intro _ _
      exact accepted_ok

theorem operation_finds (h : op ∈ ["contains", "startsWith", "endsWith"]) : Accepted (column.operation op v) := by
  have hoperator : Accepted (column.operator op v) := by
    simp only [List.mem_cons, List.not_mem_nil, or_false] at h
    rcases h with rfl | rfl | rfl <;> exact accepted_ok
  cases hv : v.isObject with
  | false => rwa [operation_plain hv]
  | true =>
      cases v with
      | object nested =>
          rw [operation, if_neg]
          · exact hoperator
          · rintro rfl
            exact absurd h (by decide)
      | _ => cases hv

theorem operation_accepted (h : Operator Uniform op v) : Accepted (column.operation op v) := by
  induction h with
  | compares h hv =>
      rw [operation_plain hv]
      rcases h with rfl | rfl
      · exact equalTo_accepted
      · exact unequalTo_accepted
  | orders h hv =>
      rw [operation_plain (Operand.isObject_of_ordered hv)]
      simp only [List.mem_cons, List.not_mem_nil, or_false] at h
      rcases h with rfl | rfl | rfl | rfl <;> exact ordered_accepted hv
  | finds h => exact operation_finds h
  | lists h hvs =>
      rw [operation_plain rfl]
      rcases h with rfl | rfl
      · exact oneOf_accepted hvs
      · exact (oneOf_accepted hvs).map
  | denies _ ih =>
      rw [operation, if_pos rfl]
      exact (operators_accepted ih).map

theorem condition_accepted (h : Comparator Uniform v) : Accepted (column.condition v) := by
  cases h with
  | truth b => exact equalTo_accepted (v := .bool b)
  | operators h => exact (operators_accepted fun kv hin => operation_accepted (h kv hin)).map

end Column

/-! ## Trees -/

namespace Filter

open RecordGraph.Operand (Operator Comparator)

/-- Names with a meaning of their own in trees. -/
def reserved : List String := ["AND", "OR", "NOT", "some", "is", "isNot"]

/-- What is collected under a key: one comparison, or the two ends of a range. -/
inductive Collected (m : Model) : Value → Prop
  | one {key : String} {column : Column} {v : Value} (hl : m.link? key = none) (hc : m.column? key = some column)
    (hv : Comparator Column.Uniform v) : Collected m (.object [(key, v)])
  | range {key : String} {column : Column} {low high : Value} (hl : m.link? key = none)
    (hc : m.column? key = some column) (hlow : Comparator Column.Uniform low) (hhigh : Comparator Column.Uniform high) :
    Collected m (.object [("AND", .list [.object [(key, low)], .object [(key, high)]])])

/-- The members of a tree over a model, with null tests only at the ends of the paths in `T`. -/
inductive Said (c : Catalog) : (List String → Prop) → Model → String × Value → Prop
  | column {T : List String → Prop} {m : Model} {key : String} {column : Column} {v : Value}
    (hl : m.link? key = none) (hc : m.column? key = some column) (hv : Comparator Column.Uniform v) : Said c T m (key, v)
  | collected {T : List String → Prop} {m : Model} {key : String} {vs : List Value} (hkey : key ∈ collecting)
    (hvs : ∀ v ∈ vs, Collected m v) : Said c T m (key, .list vs)
  | tested {T : List String → Prop} {m target : Model} {key word : String} {l : Link} (hl : m.link? key = some l)
    (hone : l.isList = false) (hn : c.named l.target = .ok target) (hword : word ∈ Link.assertions) (hT : T [key]) :
    Said c T m (key, .object [(word, .null)])
  | entered {T : List String → Prop} {m target : Model} {key : String} {l : Link} {inner : Object}
    (hl : m.link? key = some l) (hone : l.isList = false) (hn : c.named l.target = .ok target)
    (hinner : ∀ kv ∈ inner, Said c (fun path => T (key :: path)) target kv) : Said c T m (key, .object inner)
  | entered_some {T : List String → Prop} {m target : Model} {key : String} {l : Link} {inner : Object}
    (hl : m.link? key = some l) (hmany : l.isList = true) (hn : c.named l.target = .ok target)
    (hinner : ∀ kv ∈ inner, Said c (fun path => T (key :: path)) target kv) :
    Said c T m (key, .object [("some", .object inner)])

section Said

variable {c : Catalog} {T T' : List String → Prop} {m : Model} {kv : String × Value} {o : Object}

theorem Said.mono (h : Said c T m kv) (himp : ∀ path, T path → T' path) : Said c T' m kv := by
  induction h generalizing T' with
  | column hl hc hv => exact .column hl hc hv
  | collected hkey hvs => exact .collected hkey hvs
  | tested hl hone hn hword hT => exact .tested hl hone hn hword (himp _ hT)
  | entered hl hone hn _ ih => exact .entered hl hone hn fun kv hin => ih kv hin fun path => himp _
  | entered_some hl hmany hn _ ih => exact .entered_some hl hmany hn fun kv hin => ih kv hin fun path => himp _

/-- A key of a tree collects items, or is a name of the model. -/
theorem Said.key (h : Said c T m kv) : kv.1 ∈ collecting ∨ m.Has kv.1 := by
  cases h with
  | column _ hc _ => exact .inr (.inr (Option.isSome_iff_exists.mpr ⟨_, hc⟩))
  | collected hkey _ => exact .inl hkey
  | tested hl | entered hl | entered_some hl => exact .inr (.inl (Option.isSome_iff_exists.mpr ⟨_, hl⟩))

end Said

end Filter

/-! ## Conditions -/

/-- No model of the catalog has a link or a column with a reserved name. -/
def Catalog.Unreserved (c : Catalog) : Prop :=
  ∀ e ∈ c.models, ∀ name, e.2.Has name → name ∉ Filter.reserved

namespace Catalog

open RecordGraph.Filter
open RecordGraph.Operand (Comparator)

variable {c : Catalog} {T : List String → Prop} {entity : String} {m target : Model} {kv : String × Value} {o : Object}
  {name : String} {v : Value}

theorem mem_of_named (h : c.named name = .ok target) : ∃ e ∈ c.models, e.2 = target := by
  unfold named at h
  split at h
  · rename_i hfind
    cases h
    exact ⟨_, List.mem_of_find?_eq_some hfind, rfl⟩
  · cases h

theorem conditions_accepted (h : ∀ kv ∈ o, Accepted (c.memberCondition m kv.1 kv.2)) : Accepted (c.conditions m o) := by
  induction o with
  | nil => exact accepted_ok
  | cons kv rest ih =>
      rw [conditions_cons]
      apply (h kv List.mem_cons_self).bind
      intro _ _
      apply (ih fun kv hin => h kv (List.mem_cons_of_mem _ hin)).bind
      intro _ _
      exact accepted_ok

theorem condition_accepted (h : ∀ kv ∈ o, Accepted (c.memberCondition m kv.1 kv.2)) :
    Accepted (c.condition m (.object o)) := by
  rw [condition]
  exact (conditions_accepted h).map

theorem parts_accepted {vs : List Value} (h : ∀ v ∈ vs, Accepted (c.condition m v)) : Accepted (c.parts m (.list vs)) := by
  show Accepted (c.conditionList m vs)
  induction vs with
  | nil => exact accepted_ok
  | cons v vs ih =>
      rw [conditionList]
      apply (h v List.mem_cons_self).bind
      intro _ _
      apply (ih fun v hin => h v (List.mem_cons_of_mem _ hin)).bind
      intro _ _
      exact accepted_ok

variable {key : String} {l : Link} {inner : Object}

theorem not_logical_of_not_reserved (h : key ∉ reserved) : key ∉ ["AND", "OR", "NOT"] := by
  intro hin
  apply h
  simp only [reserved, List.mem_cons, List.not_mem_nil, or_false] at hin ⊢
  tauto

theorem columnMember_accepted {column : Column} (hkey : key ∉ reserved) (hl : m.link? key = none)
    (hc : m.column? key = some column) (hv : Comparator Column.Uniform v) : Accepted (c.memberCondition m key v) := by
  rw [memberCondition_name (not_logical_of_not_reserved hkey), hl]
  simp only [Model.cellCondition, hc]
  exact Column.condition_accepted hv

theorem linkMember_accepted (hkey : key ∉ reserved) (hl : m.link? key = some l) (hn : c.named l.target = .ok target)
    (hworded : (inner.any fun kv => (if l.isList then Link.quantifiers else Link.assertions).contains kv.1) = true →
      Accepted (c.linkConditions l target inner))
    (hplain : (inner.any fun kv => (if l.isList then Link.quantifiers else Link.assertions).contains kv.1) = false →
      Accepted (c.conditions target inner)) : Accepted (c.memberCondition m key (.object inner)) := by
  rw [memberCondition_name (not_logical_of_not_reserved hkey), hl]
  simp only [linkCondition, hn]
  apply (accepted_ok (a := target)).bind
  intro target' htarget
  cases htarget
  cases hany : inner.any fun kv => (if l.isList then Link.quantifiers else Link.assertions).contains kv.1 with
  | true =>
      rw [if_pos rfl]
      exact (hworded hany).map
  | false =>
      rw [if_neg Bool.false_ne_true]
      exact (hplain hany).map

theorem word_accepted {word : String} (h : Accepted (c.wordCondition l target word v)) :
    Accepted (c.linkConditions l target [(word, v)]) := by
  rw [linkConditions_cons]
  apply h.bind
  intro _ _
  exact accepted_ok

theorem collected_accepted (hres : ∀ name, m.Has name → name ∉ reserved) (h : Collected m v) :
    Accepted (c.condition m v) := by
  have hone {key : String} {column : Column} {v : Value} (hl : m.link? key = none) (hc : m.column? key = some column)
      (hv : Comparator Column.Uniform v) : Accepted (c.condition m (.object [(key, v)])) := by
    apply condition_accepted
    intro kv hin
    cases List.mem_singleton.mp hin
    exact columnMember_accepted (hres key (.inr (Option.isSome_iff_exists.mpr ⟨_, hc⟩))) hl hc hv
  cases h with
  | one hl hc hv => exact hone hl hc hv
  | range hl hc hlow hhigh =>
      apply condition_accepted
      intro kv hin
      cases List.mem_singleton.mp hin
      refine (parts_accepted fun v hin => ?_).map
      simp only [List.mem_cons, List.not_mem_nil, or_false] at hin
      rcases hin with rfl | rfl
      · exact hone hl hc hlow
      · exact hone hl hc hhigh

theorem said_accepted (hc : c.Unreserved) (h : Said c T m kv) (hres : ∀ name, m.Has name → name ∉ reserved) :
    Accepted (c.memberCondition m kv.1 kv.2) := by
  have hlink {m : Model} {key : String} {l : Link} (hl : m.link? key = some l) : m.Has key :=
    .inl (Option.isSome_iff_exists.mpr ⟨_, hl⟩)
  have htarget {name : String} {target : Model} (hn : c.named name = .ok target) :
      ∀ name, target.Has name → name ∉ reserved := by
    obtain ⟨e, he, rfl⟩ := mem_of_named hn
    exact hc e he
  induction h with
  | column hl hcolumn hv => exact columnMember_accepted (hres _ (.inr (Option.isSome_iff_exists.mpr ⟨_, hcolumn⟩))) hl hcolumn hv
  | collected hkey hvs =>
      have hparts := parts_accepted (c := c) fun v hin => collected_accepted hres (hvs v hin)
      simp only [collecting, List.mem_cons, List.not_mem_nil, or_false] at hkey
      rcases hkey with rfl | rfl
      · exact hparts.map
      · exact hparts.map
  | tested hl hone hn hword _ =>
      apply linkMember_accepted (hres _ (hlink hl)) hl hn
      · intro _
        apply word_accepted
        simp only [Link.assertions, List.mem_cons, List.not_mem_nil, or_false] at hword
        rcases hword with rfl | rfl <;> simp only [wordCondition, hone] <;> exact accepted_ok
      · intro hplain
        simp [hone, hword] at hplain
  | entered hl hone hn hinner ih =>
      apply linkMember_accepted (hres _ (hlink hl)) hl hn
      · intro hworded
        obtain ⟨kv, hin, hword⟩ := List.any_eq_true.mp hworded
        simp only [hone, Bool.false_eq_true, if_false, List.contains_iff_mem] at hword
        rcases (hinner kv hin).key with hcollected | hhas
        · revert hword hcollected
          simp only [Link.assertions, collecting, List.mem_cons, List.not_mem_nil, or_false]
          rintro (hword | hword) (hkey | hkey) <;> exact absurd (hword.symm.trans hkey) (by decide)
        · refine absurd ?_ (htarget hn _ hhas)
          simp only [Link.assertions, List.mem_cons, List.not_mem_nil, or_false] at hword
          rcases hword with hword | hword <;> rw [hword] <;> decide
      · intro _
        exact conditions_accepted fun kv hin => ih kv hin (htarget hn)
  | entered_some hl hmany hn _ ih =>
      apply linkMember_accepted (hres _ (hlink hl)) hl hn
      · intro _
        apply word_accepted
        simp only [wordCondition, hmany]
        exact (condition_accepted fun kv hin => ih kv hin (htarget hn)).map
      · intro hplain
        simp [hmany, Link.quantifiers] at hplain

end Catalog

/-! ## Clauses -/

/-- Where a path of links leads. -/
def Catalog.along (c : Catalog) (m : Model) : List String → Option Model
  | [] => some m
  | name :: path =>
    match m.link? name with
    | none => none
    | some l =>
      match c.named l.target with
      | .error _ => none
      | .ok target => c.along target path

namespace Filter

variable {c : Catalog} {T T' : List String → Prop} {entity : String} {m : Model} {field : Field} {operand : List Char}
  {mark : Mark} {tree next : Object}

theorem field_cases (h : c.WellFormed) (hm : c.model? entity = some m)
    (hf : (c.entity entity m).field? field.name = some field) :
    (field.isRelation = true ∧ ∃ l, m.link? field.name = some l) ∨
      (field.isRelation = false ∧ m.link? field.name = none ∧ ∃ column, m.column? field.name = some column) := by
  have hin : field ∈ (c.entity entity m).fields := List.mem_of_find?_eq_some hf
  rcases List.mem_append.mp hin with hin | hin
  · obtain ⟨column, hcolumn, rfl⟩ := List.mem_map.mp hin
    have hfound : (m.column? column.name).isSome = true := List.find?_isSome.mpr ⟨column, hcolumn, by simp⟩
    exact .inr ⟨rfl, h.apart _ (Catalog.mem_of_model? hm) column hcolumn, Option.isSome_iff_exists.mp hfound⟩
  · obtain ⟨l, hl, rfl⟩ := List.mem_map.mp hin
    have hfound : (m.link? l.name).isSome = true := List.find?_isSome.mpr ⟨l, hl, by simp⟩
    exact .inl ⟨rfl, Option.isSome_iff_exists.mp hfound⟩

theorem said_set {key : String} {v : Value} (htree : ∀ kv ∈ tree, Said c T m kv) (hv : Said c T m (key, v)) :
    ∀ kv ∈ Object.set key v tree, Said c T m kv := by
  intro kv hin
  rcases Object.mem_of_mem_set hin with rfl | hin
  · exact hv
  · exact htree kv hin

theorem said_addTo {key : String} {vs : List Value} (hres : ∀ name, m.Has name → name ∉ reserved)
    (htree : ∀ kv ∈ tree, Said c T m kv) (hkey : key ∈ collecting) (hvs : ∀ v ∈ vs, Collected m v) :
    ∀ kv ∈ addTo key vs tree, Said c T m kv := by
  have hreserved : key ∈ reserved := by
    simp only [collecting, List.mem_cons, List.not_mem_nil, or_false] at hkey
    rcases hkey with rfl | rfl <;> decide
  have hold : ∀ v ∈ (tree.get key).asItems, Collected m v := by
    by_cases hnull : tree.get key = .null
    · simp [hnull, Value.asItems]
    · have hsaid := htree _ (Object.mem_of_get_ne_null hnull)
      generalize tree.get key = collected at hsaid
      cases hsaid with
      | collected _ hold => exact hold
      | column _ hc _ => exact absurd hreserved (hres key (.inr (Option.isSome_iff_exists.mpr ⟨_, hc⟩)))
      | tested hl | entered hl | entered_some hl =>
          exact absurd hreserved (hres key (.inl (Option.isSome_iff_exists.mpr ⟨_, hl⟩)))
  apply said_set htree
  apply Said.collected hkey
  intro v hin
  rcases List.mem_append.mp hin with hin | hin
  · exact hold v hin
  · exact hvs v hin

/-- A mark on a link tests for null, if the clause has an operand at all, and one on a column compares. -/
theorem mark_said (h : c.WellFormed) (hm : c.model? entity = some m)
    (hf : (c.entity entity m).field? field.name = some field) (hmark : Mark.Says field operand mark)
    (hres : ∀ name, m.Has name → name ∉ reserved) (htree : ∀ kv ∈ tree, Said c T m kv)
    (hlink : ∀ l, m.link? field.name = some l → operand = [] ∨ TestsNull operand ∧ l.isList = false)
    (htest : TestsNull operand → T [field.name]) (hlists : ∀ vs, Listed operand vs → Column.Uniform vs) :
    ∀ kv ∈ mark.on tree, Said c T m kv := by
  have htested {word : String} (hr : field.isRelation = true) (hne : operand ≠ []) (hnull : TestsNull operand)
      (hword : word ∈ Link.assertions) : Said c T m (field.name, .object [(word, .null)]) := by
    rcases field_cases h hm hf with ⟨_, l, hl⟩ | ⟨hs, _⟩
    · obtain ⟨target, _, hn⟩ := Catalog.link_target h hm hl
      exact .tested hl ((hlink l hl).resolve_left hne).2 hn hword (htest hnull)
    · rw [hr] at hs
      cases hs
  have hcolumn (ho : Compares field operand) : m.link? field.name = none ∧ ∃ column, m.column? field.name = some column := by
    rcases field_cases h hm hf with ⟨hr, l, hl⟩ | ⟨_, hcolumn⟩
    · exact absurd ((hlink l hl).resolve_left ho.1).1 (ho.2 hr)
    · exact hcolumn
  cases hmark with
  | none => exact htree
  | missing hr ho => exact said_set htree (htested hr (by rw [ho]; decide) (.inl ho) (by decide))
  | present hr ho =>
      have hne : operand ≠ [] := by
        rintro rfl
        cases ho
      exact said_set htree (htested hr hne (.inr ho) (by decide))
  | compared ho hv =>
      obtain ⟨hl, column, hc⟩ := hcolumn ho
      exact said_set htree (.column hl hc (hv.mono hlists))
  | listed ho hkey hvs =>
      obtain ⟨hl, column, hc⟩ := hcolumn ho
      apply said_addTo hres htree hkey
      intro v hin
      obtain ⟨w, hw, rfl⟩ := hvs v hin
      exact .one hl hc (hw.mono hlists)
  | excluded ho hlow hhigh =>
      obtain ⟨hl, column, hc⟩ := hcolumn ho
      apply said_addTo hres htree (by decide)
      intro v hin
      cases List.mem_singleton.mp hin
      exact .range hl hc (hlow.mono hlists) (hhigh.mono hlists)

theorem not_said_some (hc : c.Unreserved) {name : String} (hn : c.named name = .ok m) (htree : ∀ kv ∈ tree, Said c T m kv) :
    Object.get? "some" tree = none := by
  obtain ⟨e, he, rfl⟩ := Catalog.mem_of_named hn
  rw [Object.get?_eq_none_iff]
  intro hin
  obtain ⟨kv, hin, hkey⟩ := List.mem_map.mp hin
  rcases (htree kv hin).key with hcollected | hhas
  · rw [hkey] at hcollected
    exact absurd hcollected (by decide)
  · rw [hkey] at hhas
    exact hc e he "some" hhas (by decide)

/-- What a change keeps at the end of a path is kept on the way to it, if no null test stands in the way. -/
theorem alongPath_said (h : c.WellFormed) (hc : c.Unreserved) {root : String}
    {change : String → Object → Except Failure Object} {path : List String} (hm : c.model? entity = some m)
    (himp : ∀ p, T p → T' p) (hpath : ∀ p, p ≠ [] → p <+: path → ¬ T p)
    (hchange : ∀ (m' : Model) (entity' : String) (tree' next' : Object), c.along m path = some m' →
      c.model? entity' = some m' → (∀ kv ∈ tree', Said c (fun p => T (path ++ p)) m' kv) →
      change entity' tree' = .ok next' → ∀ kv ∈ next', Said c (fun p => T' (path ++ p)) m' kv)
    (htree : ∀ kv ∈ tree, Said c T m kv) (hnext : alongPath c.schema root change path entity tree = .ok next) :
    ∀ kv ∈ next, Said c T' m kv := by
  induction path generalizing T T' entity m tree next with
  | nil => exact hchange m entity tree next rfl hm htree hnext
  | cons name path ih =>
      obtain ⟨e, r, he, hr, hname, henters⟩ := alongPath_cons_ok hnext
      obtain ⟨l, hl, rfl⟩ := Catalog.link_of_relation hm he hr
      obtain ⟨_, htarget, hlist⟩ := c.relationOf_facts l
      obtain ⟨target, ht, hn⟩ := Catalog.link_target h hm hl
      have hbelow {inner inner' : Object} (hinner : ∀ kv ∈ inner, Said c (fun p => T (name :: p)) target kv)
          (hrun : alongPath c.schema root change path (c.relationOf l).target inner = .ok inner') :
          ∀ kv ∈ inner', Said c (fun p => T' (name :: p)) target kv := by
        rw [htarget] at hrun
        refine ih ht (fun p => himp _) (fun p hne hpre => ?_) ?_ hinner hrun
        · exact hpath (name :: p) (by simp) (List.cons_prefix_cons.mpr ⟨rfl, hpre⟩)
        · intro m' entity' tree' next' halong
          exact hchange m' entity' tree' next' (by simp [Catalog.along, hl, hn, halong])
      have hkept : ∀ kv ∈ tree, Said c T' m kv := fun kv hin => (htree kv hin).mono himp
      have hentered {existing : Object} (hget : Object.get tree name = .object existing) :
          (l.isList = false ∧ ∀ kv ∈ existing, Said c (fun p => T (name :: p)) target kv) ∨
            l.isList = true ∧ ∃ inner, existing = [("some", .object inner)] ∧
              ∀ kv ∈ inner, Said c (fun p => T (name :: p)) target kv := by
        have hin : (name, Object.get tree name) ∈ tree := Object.mem_of_get_ne_null (by simp [hget])
        rw [hget] at hin
        cases htree _ hin with
        | column hnone => simp [hl] at hnone
        | tested _ _ _ _ hT => exact absurd hT (hpath [name] (by simp) (by simp))
        | entered hl' hone hn' hsaid =>
            cases hl.symm.trans hl'
            cases hn.symm.trans hn'
            exact .inl ⟨hone, hsaid⟩
        | entered_some hl' hmany hn' hsaid =>
            cases hl.symm.trans hl'
            cases hn.symm.trans hn'
            exact .inr ⟨hmany, _, rfl, hsaid⟩
      cases henters with
      | built hget hrun =>
          have hsaid := hbelow (by simp) hrun
          rw [hname, hlist]
          apply said_set hkept
          split
          · exact .entered_some hl ‹_› hn hsaid
          · exact .entered hl (Bool.not_eq_true _ ▸ ‹_›) hn hsaid
      | inside hget hsome hrun =>
          rw [hname] at hget ⊢
          rcases hentered hget with ⟨_, hsaid⟩ | ⟨hmany, inner, rfl, hsaid⟩
          · simp [not_said_some hc hn hsaid] at hsome
          · cases hsome
            exact said_set hkept (.entered_some hl hmany hn (hbelow hsaid hrun))
      | through hget hsome hrun =>
          rw [hname] at hget ⊢
          rcases hentered hget with ⟨hone, hsaid⟩ | ⟨_, inner, rfl, _⟩
          · exact said_set hkept (.entered hl hone hn (hbelow hsaid hrun))
          · cases hsome
      | kept => exact hkept

/-- No clause has a path that begins with this one. -/
def Untouched (clauses : List Clause) (path : List String) : Prop := ∀ clause ∈ clauses, ¬ path <+: clause.path

/-- A clause that ends in a link has no operand, or tests a link to one row for null, and the link is not entered
later; no list that is searched mixes null with lists and objects. -/
structure Fits (c : Catalog) (m : Model) (clauses : List Clause) : Prop where
  links : ∀ clause ∈ clauses, ∀ last l, c.along m clause.path = some last → last.link? clause.name = some l →
    clause.operand = [] ∨ TestsNull clause.operand ∧ l.isList = false
  order : clauses.Pairwise fun clause later => TestsNull clause.operand → ¬ (clause.path ++ [clause.name]) <+: later.path
  lists : ∀ clause ∈ clauses, ∀ vs, Listed clause.operand vs → Column.Uniform vs

variable {clause : Clause} {clauses : List Clause} {text : List Char}

theorem Fits.tail (h : Fits c m (clause :: clauses)) : Fits c m clauses where
  links later hin := h.links later (List.mem_cons_of_mem _ hin)
  order := (List.pairwise_cons.mp h.order).2
  lists later hin := h.lists later (List.mem_cons_of_mem _ hin)

theorem addClause_said (h : c.WellFormed) (hc : c.Unreserved) (hm : c.model? entity = some m)
    (hfits : Fits c m (clause :: clauses)) (hread : Clause.read? text = some clause)
    (htree : ∀ kv ∈ tree, Said c (Untouched (clause :: clauses)) m kv)
    (hadd : addClause c.schema entity tree text = .ok next) : ∀ kv ∈ next, Said c (Untouched clauses) m kv := by
  have himp : ∀ p, Untouched (clause :: clauses) p → Untouched clauses p := by
    intro p hp later hin
    exact hp later (List.mem_cons_of_mem _ hin)
  refine alongPath_said h hc hm himp ?_ ?_ htree (addClause_ok hread hadd)
  · intro p _ hpre hp
    exact hp clause List.mem_cons_self hpre
  · intro m' entity' tree' next' halong hm' htree' happly
    obtain ⟨e, field, mark, he, hf, hmark, rfl, _⟩ := applyClause_mark happly
    cases (c.schema_entity hm').symm.trans he
    have hname : field.name = clause.name := by simpa using List.find?_some hf
    refine mark_said h hm' (hname ▸ hf) hmark (hc _ (Catalog.mem_of_model? hm'))
      (fun kv hin => (htree' kv hin).mono fun p => himp _) ?_ ?_ (hfits.lists clause List.mem_cons_self)
    · intro l hl
      exact hfits.links clause List.mem_cons_self m' l halong (hname ▸ hl)
    · intro htest later hin
      rw [hname]
      exact (List.pairwise_cons.mp hfits.order).1 later hin htest

theorem parse_said (h : c.WellFormed) (hc : c.Unreserved) (hm : c.model? entity = some m)
    (hfits : Fits c m ((splitClauses text).filterMap Clause.read?)) (hparse : parse c.schema entity text = .ok tree) :
    ∃ T, ∀ kv ∈ tree, Said c T m kv := by
  unfold parse at hparse
  split at hparse
  · cases hparse
    exact ⟨fun _ => True, by simp⟩
  · -- the clauses to come fit, and none of them goes through what was tested
    have hkept := foldlM_ok_invariant (I := fun texts tree => Fits c m (texts.filterMap Clause.read?) ∧
      ∀ kv ∈ tree, Said c (Untouched (texts.filterMap Clause.read?)) m kv) ?_ ⟨hfits, by simp⟩ hparse
    · exact ⟨_, hkept.2⟩
    · intro item rest tree next _ hkept hadd
      cases hread : Clause.read? item with
      | none =>
          rw [List.filterMap_cons_none hread] at hkept
          rw [addClause_skipped hread] at hadd
          cases hadd
          exact hkept
      | some clause =>
          rw [List.filterMap_cons_some hread] at hkept
          exact ⟨hkept.1.tail, addClause_said h hc hm hkept.1 hread hkept.2 hadd⟩

/-- What fitting clauses are read as is a condition on the rows of the entity, unless a value among them does not
read as its column takes it. -/
theorem parsed_accepted (h : c.WellFormed) (hc : c.Unreserved) (hm : c.model? entity = some m)
    (hfits : Fits c m ((splitClauses text).filterMap Clause.read?)) (hparse : parse c.schema entity text = .ok tree) :
    (∃ cond, c.condition m (.object tree) = .ok cond) ∨
      ∃ message details, c.condition m (.object tree) = .error (.faultOf .invalidValue message details) := by
  obtain ⟨T, hsaid⟩ := parse_said h hc hm hfits hparse
  have haccepted : Accepted (c.condition m (.object tree)) := by
    apply Catalog.condition_accepted
    intro kv hin
    exact Catalog.said_accepted hc (hsaid kv hin) (hc _ (Catalog.mem_of_model? hm))
  cases hcond : c.condition m (.object tree) with
  | ok cond => exact .inl ⟨cond, rfl⟩
  | error failure =>
      obtain ⟨message, details, rfl⟩ := haccepted failure hcond
      exact .inr ⟨message, details, rfl⟩

/-! Posts of a blog that are looked for by their comments, their author and their number. -/

def postSearch : List Char := "comments.body=y%,author.name=%n%,id=not:between:2;5,author=not:#NULL".toList

def postSearchTree : Object :=
  [("comments", .object [("some", .object [("body", .object [("startsWith", .text "y")])])]),
   ("author", .object [("isNot", .null)]),
   ("NOT", .list [.object [("AND", .list [.object [("id", .object [("gte", .int 2)])],
     .object [("id", .object [("lte", .int 5)])]])]])]

theorem not_listed {vs : List Value} (h : Operand.isBracketed operand = false)
    (hnot : (Operand.after? "not:" operand).any Operand.isBracketed = false) : ¬ Listed operand vs := by
  rintro ⟨list, rfl | hlist, hbracketed, _⟩
  · simp [h] at hbracketed
  · simp [hlist, hbracketed] at hnot

theorem blogCatalog_unreserved : Catalog.blogCatalog.Unreserved := by
  intro e he name hhas hin
  simp only [Catalog.blogCatalog, List.mem_cons, List.not_mem_nil, or_false] at he
  simp only [reserved, List.mem_cons, List.not_mem_nil, or_false] at hin
  unfold Model.Has at hhas
  rcases he with rfl | rfl | rfl <;> rcases hin with rfl | rfl | rfl | rfl | rfl | rfl <;> revert hhas <;> decide

theorem postSearch_fits {m : Model} (hm : Catalog.blogCatalog.model? "Post" = some m) :
    Fits Catalog.blogCatalog m ((splitClauses postSearch).filterMap Clause.read?) := by
  have hclauses : (splitClauses postSearch).filterMap Clause.read? =
      [⟨["comments"], "body", "y%".toList⟩, ⟨["author"], "name", "%n%".toList⟩,
       ⟨[], "id", "not:between:2;5".toList⟩, ⟨[], "author", "not:#NULL".toList⟩] := rfl
  rw [hclauses]
  cases hm
  constructor
  · intro clause hin last l halong hl
    simp only [List.mem_cons, List.not_mem_nil, or_false] at hin
    rcases hin with rfl | rfl | rfl | rfl
    · cases halong
      cases hl
    · cases halong
      cases hl
    · cases halong
      cases hl
    · cases halong
      cases hl
      exact .inr ⟨.inr rfl, rfl⟩
  · simp only [List.pairwise_cons, List.forall_mem_cons]
    refine ⟨⟨?_, ?_, ?_, by simp⟩, ⟨?_, ?_, by simp⟩, ⟨?_, by simp⟩, by simp, .nil⟩ <;> intro _ <;> decide
  · intro clause hin vs hlisted
    simp only [List.mem_cons, List.not_mem_nil, or_false] at hin
    rcases hin with rfl | rfl | rfl | rfl <;> exact absurd hlisted (not_listed rfl rfl)

theorem postSearch_accepted :
    Catalog.blogCatalog.WellFormed ∧ Catalog.blogCatalog.Unreserved ∧
    ∃ m, Catalog.blogCatalog.model? "Post" = some m ∧
      Fits Catalog.blogCatalog m ((splitClauses postSearch).filterMap Clause.read?) ∧
      parse Catalog.blogCatalog.schema "Post" postSearch = .ok postSearchTree ∧
      ((∃ cond, Catalog.blogCatalog.condition m (.object postSearchTree) = .ok cond) ∨
        ∃ message details, Catalog.blogCatalog.condition m (.object postSearchTree) =
          .error (.faultOf .invalidValue message details)) := by
  have hparse : parse Catalog.blogCatalog.schema "Post" postSearch = .ok postSearchTree := rfl
  refine ⟨Catalog.blogCatalog_wellFormed, blogCatalog_unreserved, _, rfl, postSearch_fits rfl, hparse, ?_⟩
  exact parsed_accepted Catalog.blogCatalog_wellFormed blogCatalog_unreserved rfl (postSearch_fits rfl) hparse

/-- A null test of a link to many rows is written with a word for links to one row. -/
theorem missingComments_refused :
    ∃ m, Catalog.blogCatalog.model? "Post" = some m ∧ ∃ tree,
      parse Catalog.blogCatalog.schema "Post" "comments=#NULL".toList = .ok tree ∧
      ∃ message details, Catalog.blogCatalog.condition m (.object tree) =
        .error (.faultOf .queryValidation message details) :=
  ⟨_, rfl, [("comments", .object [("is", .null)])], rfl, _, _, rfl⟩

end Filter

end RecordGraph
