import RecordGraph.Proofs.Access.Tidiness
import RecordGraph.Query.Include
import RecordGraph.Relational.Record

/-!
# Vetted shapes

A shape is vetted for a user if it shows no column that the user never sees, at any depth, and every
relation in it leads to readable records only. The entries of included relations are vetted.
-/

namespace RecordGraph

/-- The user never sees a field of an entity. -/
def Viewpoint.Omits (v : Viewpoint) (entity name : String) : Prop :=
  ∃ names, v.omitted entity = .ok names ∧ name ∈ names

theorem Viewpoint.get?_omission {v : Viewpoint} {entity : String} {omission : Object}
    (h : v.omission entity = .ok omission) (name : String) :
    (v.Omits entity name ∧ Object.get? name omission = some (.bool true)) ∨
      (¬ v.Omits entity name ∧ Object.get? name omission = none) := by
  obtain ⟨names, hn, ho⟩ := bind_ok_iff.mp h
  rw [pure_ok_iff] at ho
  subst ho
  have hiff : v.Omits entity name ↔ name ∈ names :=
    ⟨fun ⟨_, hn', hm⟩ => by rw [hn] at hn'; cases hn'; exact hm, fun hm => ⟨names, hn, hm⟩⟩
  rw [Object.get?_ofMembers_map, hiff]
  by_cases hm : name ∈ names <;> simp [hm]

namespace Shape

/-- The entries of the relations that a shape loads or shows. -/
def Names (shape : Object) (name : String) (entry : Value) : Prop :=
  ∃ key ∈ ["include", "select"], ∃ tree, Object.get shape key = .object tree ∧ (name, entry) ∈ tree

/-- Whether records of a shape have a column. -/
def HasColumn (shape : Object) (name : String) : Prop :=
  match Object.get shape "select" with
  | .object tree => name ∈ Object.keys tree
  | _ => ∀ omitted, Object.get shape "omit" = .object omitted → (Object.get omitted name).isPresent = false

variable (v : Viewpoint)

/-- An entry of a relation leads to readable records only: the target is not denied, and the rows of
a list are loaded with the filter of the decision. -/
def Opens (r : Relation) (entry : Value) : Prop :=
  ∃ d, v.decide .read r.target = .ok d ∧ d.denied = false ∧
    (r.isList = true → d.filter = [] ∨ Object.get (members entry) "where" = .object d.filter)

/-- A shape of records of an entity that shows no column that is kept from the user, and only relations
whose entries pass a test. -/
inductive Passes (test : Relation → Value → Prop) : String → Object → Prop
  | of {entity shape}
      (columns : ∀ name, v.schema.relation? entity name = .ok none → v.Omits entity name →
        ¬ HasColumn shape name)
      (opens : ∀ name entry r, Names shape name entry → v.schema.relation? entity name = .ok (some r) →
        test r entry)
      (below : ∀ name entry r, Names shape name entry → v.schema.relation? entity name = .ok (some r) →
        Passes test r.target (members entry)) : Passes test entity shape

/-- A tree of which every relation passes. -/
def PassesTree (test : Relation → Value → Prop) (entity : String) (tree : Object) : Prop :=
  ∀ name entry r, (name, entry) ∈ tree → v.schema.relation? entity name = .ok (some r) →
    test r entry ∧ Passes v test r.target (members entry)

/-- A shape that shows nothing that is kept from the user. -/
abbrev Vetted : String → Object → Prop := Passes v (Opens v)

abbrev VettedTree : String → Object → Prop := PassesTree v (Opens v)

variable {v} {test : Relation → Value → Prop} {entity : String} {shape tree : Object}

theorem Passes.subtree {key : String} (h : Passes v test entity shape) (hk : key ∈ ["include", "select"])
    (hs : Object.get shape key = .object tree) : PassesTree v test entity tree := by
  obtain ⟨_, opens, below⟩ := h
  intro name entry r hm hr
  have hn : Names shape name entry := ⟨key, hk, tree, hs, hm⟩
  exact ⟨opens name entry r hn hr, below name entry r hn hr⟩

theorem passesTree_empty : PassesTree v test entity [] := fun _ _ _ hm => nomatch hm

/-- What a shape loads passes with it. -/
theorem Passes.loads {entry : Value} (h : Passes v test entity (members entry)) :
    PassesTree v test entity (loads entry) := by
  cases entry with
  | object o =>
      simp only [Shape.loads]
      split
      · rename_i tree ht
        split at ht
        · exact h.subtree (by simp) ht
        · exact h.subtree (by simp) ht
      · exact passesTree_empty
  | _ => exact passesTree_empty

/-- A shape that selects a tree that passes and none of the omitted columns. -/
theorem Passes.selected (hs : Object.get shape "select" = .object tree)
    (hi : Object.get shape "include" = .null)
    (hc : ∀ name ∈ Object.keys tree, v.schema.relation? entity name = .ok none → ¬ v.Omits entity name)
    (ht : PassesTree v test entity tree) : Passes v test entity shape := by
  have hnames {name : String} {entry : Value} (h : Names shape name entry) : (name, entry) ∈ tree := by
    obtain ⟨key, hk, tree', hg, hm⟩ := h
    simp only [List.mem_cons, List.not_mem_nil, or_false] at hk
    rcases hk with rfl | rfl
    · rw [hi] at hg; cases hg
    · rw [hs] at hg; cases hg; exact hm
  refine .of (fun name hr ho hcol => ?_) (fun name entry r hn hr => (ht name entry r (hnames hn) hr).1)
    (fun name entry r hn hr => (ht name entry r (hnames hn) hr).2)
  simp only [HasColumn, hs] at hcol
  exact hc name hcol hr ho

end Shape

/-! ## Included relations -/

namespace Include

variable {v : Viewpoint} {parent : String} {r : Relation} {nested : Object} {x : Value}

/-- The filter of an entry. -/
def rowFilter (parent : String) (r : Relation) (d : Decision) : Value :=
  if r.isList ∧ !d.filter.isEmpty then
    (((Guard.withoutParent parent (.object d.filter)).bind Guard.clean).getD .null)
  else .null

/-- The parts of an entry, each of which is left out if it says nothing. -/
def parts (omission : Object) (filter : Value) (nested : Object) : Object :=
  (if omission.isEmpty then [] else [("omit", .object omission)])
    ++ (if filter.isPresent then [("where", filter)] else [])
    ++ (if nested.isEmpty then [] else [("include", .object nested)])

/-- An entry is there if the target is not denied. -/
theorem entry_some_iff : entry v parent r nested = .ok (some x) ↔
    ∃ d omission, v.decide .read r.target = .ok d ∧ d.denied = false ∧
      v.omission r.target = .ok omission ∧
      x = let ps := parts omission (rowFilter parent r d) nested
        if ps.isEmpty then .bool true else .object ps := by
  simp only [entry, bind_ok_iff]
  constructor
  · rintro ⟨d, hd, h⟩
    cases hden : d.denied with
    | true => simp [hden, pure_ok_iff] at h
    | false =>
        simp only [hden, Bool.false_eq_true, ↓reduceIte, bind_ok_iff, pure_ok_iff, Option.some.injEq] at h
        obtain ⟨omission, ho, rfl⟩ := h
        exact ⟨d, omission, hd, hden, ho, rfl⟩
  · rintro ⟨d, omission, hd, hden, ho, rfl⟩
    refine ⟨d, hd, ?_⟩
    simp only [hden, Bool.false_eq_true, ↓reduceIte, bind_ok_iff, pure_ok_iff, Option.some.injEq]
    exact ⟨omission, ho, rfl⟩

theorem members_parts {ps : Object} :
    Shape.members (if ps.isEmpty then .bool true else .object ps) = ps := by
  cases ps <;> rfl

theorem get_parts (omission : Object) (filter : Value) (nested : Object) :
    Object.get (parts omission filter nested) "select" = .null ∧
    Object.get (parts omission filter nested) "omit" = (if omission.isEmpty then .null else .object omission) ∧
    Object.get (parts omission filter nested) "where" = (if filter.isPresent then filter else .null) ∧
    Object.get (parts omission filter nested) "include" = (if nested.isEmpty then .null else .object nested) := by
  cases ho : omission.isEmpty <;> cases hf : filter.isPresent <;> cases hn : nested.isEmpty <;>
    simp [parts, ho, hf, hn, Object.get, Object.get?]

/-- The filter of the target puts no condition on the entity that a list is followed from. -/
def Unconditional (v : Viewpoint) (parent : String) (r : Relation) : Prop :=
  r.isList = true → ∀ d, v.decide .read r.target = .ok d →
    Guard.standsAlone parent (.object d.filter) = true

/-- An entry carries the filter of its target as it is. -/
theorem rowFilter_eq {d : Decision} (hd : v.decide .read r.target = .ok d)
    (hu : Unconditional v parent r) (hl : r.isList = true) (hf : d.filter ≠ []) :
    rowFilter parent r d = .object d.filter := by
  have hne : d.filter.isEmpty = false := by simpa using hf
  have htidy := (Rules.decide_tidy hd).resolve_left hf
  rw [rowFilter, if_pos ⟨hl, by simp [hne]⟩, htidy.withoutParent_eq (hu hl d hd), Option.bind_some,
    htidy.clean_eq, Option.getD_some]

theorem entry_opens (h : entry v parent r nested = .ok (some x)) (hu : Unconditional v parent r) :
    Shape.Opens v r x := by
  obtain ⟨d, omission, hd, hden, _, rfl⟩ := entry_some_iff.mp h
  refine ⟨d, hd, hden, fun hl => ?_⟩
  by_cases hf : d.filter = []
  · exact .inl hf
  · have hne : d.filter.isEmpty = false := by simpa using hf
    right
    dsimp only
    rw [members_parts, (get_parts _ _ _).2.2.1, rowFilter_eq hd hu hl hf]
    simp [Value.isPresent, hne]

theorem entry_passes {test : Relation → Value → Prop} (h : entry v parent r nested = .ok (some x))
    (hn : Shape.PassesTree v test r.target nested) : Shape.Passes v test r.target (Shape.members x) := by
  obtain ⟨d, omission, _, _, ho, rfl⟩ := entry_some_iff.mp h
  dsimp only
  rw [members_parts]
  obtain ⟨hsel, homit, _, hincl⟩ := get_parts omission (rowFilter parent r d) nested
  have hnames {name : String} {entry : Value}
      (h : Shape.Names (parts omission (rowFilter parent r d) nested) name entry) : (name, entry) ∈ nested := by
    obtain ⟨key, hk, tree, hg, hm⟩ := h
    simp only [List.mem_cons, List.not_mem_nil, or_false] at hk
    rcases hk with rfl | rfl
    · rw [hincl] at hg
      split at hg
      · cases hg
      · cases hg; exact hm
    · rw [hsel] at hg; cases hg
  refine .of (fun name _ hom hcol => ?_) (fun name entry r hm hr => (hn name entry r (hnames hm) hr).1)
    (fun name entry r hm hr => (hn name entry r (hnames hm) hr).2)
  rcases Viewpoint.get?_omission ho name with ⟨_, hget⟩ | ⟨hnot, _⟩
  · have hne : omission.isEmpty = false := by
      cases omission with
      | nil => simp [Object.get?] at hget
      | cons => rfl
    simp only [Shape.HasColumn, hsel, homit, hne, Bool.false_eq_true, ↓reduceIte] at hcol
    have hpresent := hcol omission rfl
    simp [Object.get, hget, Value.isPresent] at hpresent
  · exact hnot hom

end Include

end RecordGraph
