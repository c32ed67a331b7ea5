import RecordGraph.Proofs.Query.Shown

/-!
# Screened records

A record is screened for a user if at no depth it shows a column that is omitted, or a related record
of an entity that is denied. The shapes that requests without a field list come to screen their
records: every entry of an included relation omits what is omitted of its target.
-/

namespace RecordGraph

/-- The records that the value of a relation shows. -/
def Value.shownRecords (x : Value) : List Object :=
  x.asItems.filterMap fun
    | .object o => some o
    | _ => none

def Viewpoint.Readable (v : Viewpoint) (entity : String) : Prop :=
  ∃ d, v.decide .read entity = .ok d ∧ d.denied = false

/-- A record of an entity that shows nothing that is omitted, and below it no record of an entity that
is denied. -/
inductive Viewpoint.Screened (v : Viewpoint) : String → Object → Prop
  | of {entity record}
      (columns : ∀ name ∈ Object.keys record, v.schema.relation? entity name = .ok none → ¬ v.Omits entity name)
      (readable : ∀ name x r, (name, x) ∈ record → v.schema.relation? entity name = .ok (some r) →
        x.shownRecords ≠ [] → v.Readable r.target)
      (below : ∀ name x r, (name, x) ∈ record → v.schema.relation? entity name = .ok (some r) →
        ∀ o ∈ x.shownRecords, Screened v r.target o) : Screened v entity record

namespace Shape

variable (v : Viewpoint)

abbrev Screens : String → Object → Prop := Passes v fun r _ => v.Readable r.target

abbrev ScreensTree : String → Object → Prop := PassesTree v fun r _ => v.Readable r.target

variable {v} {test : Relation → Value → Prop} {entity name : String} {tree shape : Object} {x : Value}

theorem PassesTree.set (h : PassesTree v test entity tree)
    (hx : ∀ r, v.schema.relation? entity name = .ok (some r) →
      test r x ∧ Passes v test r.target (members x)) : PassesTree v test entity (Object.set name x tree) := by
  intro other entry r hm hr
  rcases Object.mem_of_mem_set hm with he | hm
  · cases he
    exact hx r hr
  · exact h other entry r hm hr

theorem get_set_where {filter : Value} {key : String} (hk : key ≠ "where") :
    Object.get (Object.set "where" filter shape) key = Object.get shape key := by
  rw [Object.get, Object.get, Object.get?_set_of_ne hk.symm]

/-- What a shape shows does not depend on the filter of the rows. -/
theorem Passes.set_where (h : Passes v test entity shape) {filter : Value} :
    Passes v test entity (Object.set "where" filter shape) := by
  have hnames {name : String} {entry : Value} (hn : Names (Object.set "where" filter shape) name entry) :
      Names shape name entry := by
    obtain ⟨key, hk, tree, hs, hm⟩ := hn
    have hne : key ≠ "where" := by rintro rfl; simp at hk
    exact ⟨key, hk, tree, get_set_where hne ▸ hs, hm⟩
  obtain ⟨columns, opens, below⟩ := h
  refine .of (fun name hr ho hcol => columns name hr ho ?_) (fun name entry r hn => opens name entry r (hnames hn))
    (fun name entry r hn => below name entry r (hnames hn))
  unfold HasColumn at hcol ⊢
  rwa [get_set_where (by decide), get_set_where (by decide)] at hcol

end Shape

namespace Include

open Shape

variable {v : Viewpoint} {entity parent : String} {r : Relation} {nested tree : Object} {x : Value}

/-! ## Trees of included relations

What every entry passes that is made for a relation, the tree of a request passes.
-/

section Passing

variable {test : Relation → Value → Prop}
  (htest : ∀ {parent r nested x}, entry v parent r nested = .ok (some x) → test r x)

include htest

theorem added_passes {name : String} {next : Object} (htree : PassesTree v test entity tree)
    (hr : v.schema.relation? entity name = .ok (some r)) (hn : PassesTree v test r.target nested)
    (h : (do match ← entry v entity r nested with
      | some x => return Object.set name x tree
      | none => return tree) = Except.ok next) : PassesTree v test entity next := by
  obtain ⟨added, hentry, h⟩ := bind_ok_iff.mp h
  cases added with
  | none =>
      obtain rfl := pure_ok_iff.mp h
      exact htree
  | some x =>
      obtain rfl := pure_ok_iff.mp h
      refine htree.set fun r' hr' => ?_
      rw [hr] at hr'
      cases hr'
      exact ⟨htest hentry, entry_passes hentry hn⟩

theorem level_passes {below : Relation → List String → Except Failure Object}
    {groups : List (String × List String)}
    (hbelow : ∀ r rests nested, below r rests = .ok nested → PassesTree v test r.target nested)
    (h : level v below entity groups = .ok tree) : PassesTree v test entity tree := by
  obtain ⟨e, he, h⟩ := bind_ok_iff.mp h
  refine foldlM_ok_kept (I := PassesTree v test entity) (fun {group tree next} _ htree hstep => ?_)
    passesTree_empty h
  obtain ⟨name, rests⟩ := group
  dsimp only at hstep
  split at hstep
  · obtain rfl := pure_ok_iff.mp hstep
    exact htree
  · rename_i r hr
    have hrelation : v.schema.relation? entity name = .ok (some r) := by
      rw [Schema.relation?_of_entity he, hr]
    split at hstep
    · exact added_passes htest htree hrelation passesTree_empty hstep
    · obtain ⟨nested, hnested, hstep⟩ := bind_ok_iff.mp hstep
      exact added_passes htest htree hrelation (hbelow r rests nested hnested) hstep

theorem paths_passes {depth : Nat} : ∀ {entity : String} {groups : List (String × List String)} {tree : Object},
    paths v depth entity groups = .ok tree → PassesTree v test entity tree := by
  induction depth with
  | zero => exact fun h => level_passes htest (fun _ _ _ hn => pure_ok_iff.mp hn ▸ passesTree_empty) h
  | succ depth ih => exact fun h => level_passes htest (fun _ _ _ hn => ih hn) h

theorem everyRelation_passes (hs : v.schema.Distinct) (h : everyRelation v entity = .ok tree) :
    PassesTree v test entity tree := by
  obtain ⟨e, he, h⟩ := bind_ok_iff.mp h
  refine foldlM_ok_kept (I := PassesTree v test entity) (fun {r tree next} hin htree hstep => ?_)
    passesTree_empty h
  have hrelation : v.schema.relation? entity r.name = .ok (some r) := by
    rw [Schema.relation?_of_entity he, hs.relation? he hin]
  exact added_passes htest htree hrelation passesTree_empty hstep

end Passing

theorem restrictEntry_members {condition y : Value} (h : restrictEntry condition x = .ok y) :
    ∃ own guarded, condition = .object own ∧ members y = Object.set "where" (.object guarded) (members x) ∧
      (guarded = own ∧ (Object.get (members x) "where").isPresent = false ∨
        ∃ filter, Object.get (members x) "where" = .object filter ∧ guarded = Guard.merge own filter) := by
  cases condition with
  | object condition =>
      have hwhole : restrictEntry (.object condition) x = (do
          let guarded ← match Object.get (members x) "where" with
            | .object own => pure (Guard.merge condition own)
            | own => if own.isPresent then throw .illFormed else pure condition
          return .object (Object.set "where" (.object guarded) (members x))) := by
        cases x <;> rfl
      rw [hwhole] at h
      split at h
      · rename_i filter hfilter
        obtain rfl := pure_ok_iff.mp h
        exact ⟨condition, _, rfl, rfl, .inr ⟨filter, hfilter, rfl⟩⟩
      · split at h
        · cases h
        · rename_i habsent
          obtain rfl := pure_ok_iff.mp h
          exact ⟨condition, _, rfl, rfl, .inl ⟨rfl, by simpa using habsent⟩⟩
  | _ => cases h

/-- Further conditions on the rows of a relation change nothing of what is shown. -/
theorem restricted_passes {test : Relation → Value → Prop} {name : String} {condition : Value} {next : Object}
    (hkept : ∀ r x y, v.schema.relation? entity name = .ok (some r) → test r x →
      restrictEntry condition x = .ok y → test r y)
    (htree : PassesTree v test entity tree)
    (h : (match Object.get? name tree with
      | some x => if condition.isPresent then do return Object.set name (← restrictEntry condition x) tree
        else return tree
      | none => return tree) = Except.ok next) : PassesTree v test entity next := by
  split at h
  · rename_i x hx
    split at h
    · obtain ⟨y, hy, h⟩ := bind_ok_iff.mp h
      obtain rfl := pure_ok_iff.mp h
      obtain ⟨_, _, _, hmembers, _⟩ := restrictEntry_members hy
      refine htree.set fun r hr => ?_
      obtain ⟨hpasses, hshows⟩ := htree name x r (Object.mem_of_get? hx) hr
      exact ⟨hkept r x y hr hpasses hy, hmembers ▸ hshows.set_where⟩
    · obtain rfl := pure_ok_iff.mp h
      exact htree
  · obtain rfl := pure_ok_iff.mp h
    exact htree

/-- The tree of a request passes what its entries pass when they are made and when they are restricted. -/
theorem resolve_passes {test : Relation → Value → Prop} (hs : v.schema.Distinct) {maxDepth : Int}
    {request : IncludeRequest}
    (htest : ∀ {parent r nested x}, entry v parent r nested = .ok (some x) → test r x)
    (hkept : ∀ name condition, (name, condition) ∈ request.conditions → ∀ r x y,
      v.schema.relation? entity name = .ok (some r) → test r x → restrictEntry condition x = .ok y → test r y)
    (h : resolve v maxDepth entity request = .ok tree) : PassesTree v test entity tree := by
  obtain ⟨query, _, h⟩ := bind_ok_iff.mp h
  split at h
  · obtain rfl := pure_ok_iff.mp h
    exact passesTree_empty
  · dsimp only at h
    split at h
    · obtain rfl := pure_ok_iff.mp h
      exact passesTree_empty
    · split at h
      · obtain ⟨start, hstart, h⟩ := bind_ok_iff.mp h
        refine foldlM_ok_kept (I := PassesTree v test entity) (fun {kv _ _} hin htree hstep => ?_)
          (everyRelation_passes htest hs hstart) h
        exact restricted_passes (hkept kv.1 kv.2 hin) htree hstep
      · obtain ⟨start, hstart, h⟩ := bind_ok_iff.mp h
        refine foldlM_ok_kept (I := PassesTree v test entity) (fun {kv _ _} hin htree hstep => ?_)
          (paths_passes htest hstart) h
        exact restricted_passes (hkept kv.1 kv.2 hin) htree hstep

theorem entry_readable (h : entry v parent r nested = .ok (some x)) : v.Readable r.target := by
  obtain ⟨d, _, hd, hden, _⟩ := entry_some_iff.mp h
  exact ⟨d, hd, hden⟩

/-- Whatever is asked for, every relation of the tree leads to readable records only. -/
theorem resolve_screens (hs : v.schema.Distinct) {maxDepth : Int} {request : IncludeRequest}
    (h : resolve v maxDepth entity request = .ok tree) : ScreensTree v entity tree :=
  resolve_passes hs entry_readable (fun _ _ _ _ _ _ _ hreadable _ => hreadable) h

end Include

/-! ## Plans -/

/-- A plan whose records are screened: what it loads and what it shows of it. -/
def Plan.Screens (v : Viewpoint) (entity : String) (p : Plan) : Prop :=
  Shape.ScreensTree v entity p.loads ∧ Shape.Screens v entity p.shape

/-- A field list that asks for no field. -/
def Selection.Blank (fields : Value) : Prop :=
  ∀ text, fieldText fields = .ok text → trimText text = ""

section Plans

variable {v : Viewpoint} {entity : String} {p : Plan}

theorem Plan.get_shape_include : Object.get p.shape "include" = (p.includes.map Value.object).getD .null := by
  unfold shape
  cases p.includes <;> cases p.selects <;> cases p.omits <;> rfl

/-- A plan that includes a tree, selects nothing and omits at least what is omitted for the user. -/
theorem Plan.included_passes {test : Relation → Value → Prop}
    (htree : Shape.PassesTree v test entity (p.includes.getD [])) (hsel : p.selects = none)
    (homit : ∀ name, v.Omits entity name →
      ∃ omitted, p.omits = some omitted ∧ (Object.get omitted name).isPresent = true) :
    Shape.PassesTree v test entity p.loads ∧ Shape.Passes v test entity p.shape := by
  have hselect : Object.get p.shape "select" = .null := by rw [get_shape_select, hsel]; rfl
  have hinclude := get_shape_include (p := p)
  have hnames {name : String} {entry : Value} (hn : Shape.Names p.shape name entry) :
      (name, entry) ∈ p.includes.getD [] := by
    obtain ⟨key, hk, tree, hs, hm⟩ := hn
    simp only [List.mem_cons, List.not_mem_nil, or_false] at hk
    rcases hk with rfl | rfl
    · rw [hinclude] at hs
      cases hi : p.includes with
      | none => rw [hi] at hs; cases hs
      | some tree' => rw [hi] at hs; cases hs; exact hm
    · rw [hselect] at hs
      cases hs
  refine ⟨by rw [loads, hsel, Option.or_none]; exact htree, .of (fun name _ hom hcol => ?_)
    (fun name entry r hn hr => (htree name entry r (hnames hn) hr).1)
    (fun name entry r hn hr => (htree name entry r (hnames hn) hr).2)⟩
  obtain ⟨omitted, ho, hpresent⟩ := homit name hom
  rw [Shape.HasColumn, hselect] at hcol
  have hhidden := hcol omitted (by rw [get_shape_omit, ho]; rfl)
  rw [hpresent] at hhidden
  cases hhidden

theorem Plan.screens_included (htree : Shape.ScreensTree v entity (p.includes.getD [])) (hsel : p.selects = none)
    (homit : ∀ name, v.Omits entity name →
      ∃ omitted, p.omits = some omitted ∧ (Object.get omitted name).isPresent = true) : p.Screens v entity :=
  included_passes htree hsel homit

/-- A plan that selects some scalars but for the omitted ones. -/
theorem Plan.screens_scalars {names : List String} {omission : Object} (ho : v.omission entity = .ok omission)
    (hnames : ∀ name ∈ names, v.schema.relation? entity name = .ok none) :
    ({ p with includes := none, selects := some (Selection.scalarTree omission names) } : Plan).Screens v entity := by
  have htree : Shape.ScreensTree v entity (Selection.scalarTree omission names) := by
    intro name entry r hm hr
    rw [hnames name (Selection.mem_scalarTree ho hm).1] at hr
    cases hr
  refine ⟨htree, .selected (by rw [get_shape_select]; rfl) ?_ (fun name hk _ => ?_) htree⟩
  · unfold shape
    cases p.omits <;> rfl
  · obtain ⟨kv, hm, rfl⟩ := List.mem_map.mp hk
    exact (Selection.mem_scalarTree ho hm).2.1

/-- The shape of a request without a field list includes the tree of its relations and omits what is omitted. -/
theorem Selection.blank_ok {maxDepth : Int} {fields includes : Value} {shape : Shape} (hb : Blank fields)
    (h : compile v maxDepth entity fields includes = .ok shape) :
    ∃ request, IncludeRequest.ofValue includes = .ok request ∧
      Include.resolve v maxDepth entity request = .ok (shape.includes.getD []) ∧ shape.selects = none ∧
      ∀ name, v.Omits entity name →
        ∃ omitted, shape.omits = some omitted ∧ (Object.get omitted name).isPresent = true := by
  obtain ⟨text, ht, _⟩ := bind_ok_iff.mp h
  obtain ⟨request, tree, omission, hrequest, htree, ho, rfl⟩ := compile_blank ht (hb text ht) h
  refine ⟨request, hrequest, ?_, rfl, fun name hom => ?_⟩
  · cases tree <;> exact htree
  · rcases Viewpoint.get?_omission ho name with ⟨_, hget⟩ | ⟨hno, _⟩
    · cases omission with
      | nil => cases hget
      | cons => exact ⟨_, rfl, by rw [Object.get, hget]; rfl⟩
    · exact absurd hom hno

theorem Selection.blank_screens (hs : v.schema.Distinct) {maxDepth : Int} {fields includes : Value} {shape : Shape}
    (hb : Blank fields) (h : compile v maxDepth entity fields includes = .ok shape) :
    Shape.ScreensTree v entity (shape.includes.getD []) ∧ shape.selects = none ∧
      ∀ name, v.Omits entity name →
        ∃ omitted, shape.omits = some omitted ∧ (Object.get omitted name).isPresent = true := by
  obtain ⟨request, _, htree, hselects, homits⟩ := blank_ok hb h
  exact ⟨Include.resolve_screens hs htree, hselects, homits⟩

end Plans

end RecordGraph
