import RecordGraph.Proofs.Query.FieldList
import RecordGraph.Proofs.Query.Vetting
import RecordGraph.Proofs.Schema.Names

/-!
# Selected shapes

The shape for a field list is vetted if every relation that the list names is covered. A relation
that is named without a path is read whole, and nothing looks at what it leads to: it is covered only
if its own entry takes the place of the name, or if that entry has nothing to say.
-/

namespace RecordGraph

namespace Selection

variable (v : Viewpoint)

/-- A name without a path stands for a column, is left out, or names a relation whose target is not
denied and whose own entry takes its place or says nothing. -/
def CoveredName (entity : String) (followed : List String) (name : String) : Prop :=
  ∀ r, v.schema.relation? entity name = .ok (some r) → v.Omits entity name ∨
    ∃ x, Include.entry v entity r [] = .ok (some x) ∧ (name ∈ followed ∨ x = .bool true)

/-- The names at the head of the paths that some texts put together. -/
def heads (rests : List String) : List String := (parseFields (joinTexts "," rests)).2.map Prod.fst

/-- A field list of an entity whose relations are covered, where entries are made of the relations
that are followed. Targets put no condition on the entity that a list is followed from. -/
inductive Covered : String → List String → String → Prop
  | of {entity followed fields}
      (plain : ∀ name ∈ (parseFields fields).1, CoveredName v entity followed name)
      (filters : ∀ name r, name ∈ (parseFields fields).1 ∨ name ∈ followed →
        v.schema.relation? entity name = .ok (some r) → Include.Unconditional v entity r)
      (below : ∀ name rests r, (name, rests) ∈ (parseFields fields).2 →
        v.schema.relation? entity name = .ok (some r) →
        Covered r.target (heads rests) (joinTexts "," rests)) :
      Covered entity followed fields

/-- A request whose field list is covered by the relations that it makes available. -/
def CoveredRequest (entity fields : String) (includes : Value) : Prop :=
  ∀ request query available, IncludeRequest.ofValue includes = .ok request → request.text? = .ok query →
    Include.available v entity query = .ok available → Covered v entity available fields

variable {v} in
theorem Covered.of_columns {entity fields : String}
    (hp : ∀ name ∈ (parseFields fields).1, v.schema.relation? entity name = .ok none)
    (hd : (parseFields fields).2 = []) : Covered v entity [] fields := by
  refine .of (fun name hn r hr => ?_) (fun name r hn hr => ?_) (fun name rests r hm _ => ?_)
  · rw [hp name hn] at hr; cases hr
  · rcases hn with hn | hn
    · rw [hp name hn] at hr; cases hr
    · cases hn
  · rw [hd] at hm; cases hm

/-- A field list of an entity whose names are covered, with relations of which something is known. -/
inductive CoveredBy (known : String → Relation → Prop) : String → List String → String → Prop
  | of {entity followed fields}
      (plain : ∀ name ∈ (parseFields fields).1, CoveredName v entity followed name)
      (relations : ∀ name r, name ∈ (parseFields fields).1 ∨ name ∈ followed →
        v.schema.relation? entity name = .ok (some r) → known entity r)
      (below : ∀ name rests r, (name, rests) ∈ (parseFields fields).2 →
        v.schema.relation? entity name = .ok (some r) →
        CoveredBy known r.target (heads rests) (joinTexts "," rests)) :
      CoveredBy known entity followed fields

variable {v} in
theorem Covered.unconditional {entity fields : String} {followed : List String}
    (h : Covered v entity followed fields) : CoveredBy v (Include.Unconditional v) entity followed fields := by
  induction h with
  | of plain filters _ ih => exact .of plain filters ih

/-! ## Trees under construction -/

/-- A tree of which all relations pass but those whose names are still to be replaced by entries. -/
structure Pending (test : Relation → Value → Prop) (entity : String) (names : List String) (tree : Object) :
    Prop where
  distinct : (Object.keys tree).Nodup
  columns : ∀ name ∈ Object.keys tree, v.schema.relation? entity name = .ok none → ¬ v.Omits entity name
  related : ∀ name x r, (name, x) ∈ tree → v.schema.relation? entity name = .ok (some r) →
    (test r x ∧ Shape.Passes v test r.target (Shape.members x)) ∨
      (name ∈ names ∧ ∃ y, Include.entry v entity r [] = .ok (some y))

variable {v} {test : Relation → Value → Prop} {known : String → Relation → Prop} {entity name : String}
  {names followed : List String} {tree : Object} {r : Relation} {x : Value}

theorem Pending.passes (h : Pending v test entity [] tree) {shape : Object}
    (hs : Object.get shape "select" = .object tree) (hi : Object.get shape "include" = .null) :
    Shape.Passes v test entity shape := by
  refine .selected hs hi h.columns fun name x r hm hr => ?_
  rcases h.related name x r hm hr with hv | ⟨hin, _⟩
  · exact hv
  · nomatch hin

/-- An entry takes the place of a name. -/
theorem Pending.set (h : Pending v test entity (name :: names) tree)
    (hr : v.schema.relation? entity name = .ok (some r)) (ho : test r x)
    (hv : Shape.Passes v test r.target (Shape.members x)) : Pending v test entity names (Object.set name x tree) := by
  refine ⟨Object.nodup_keys_set h.distinct, fun other hk hnone => ?_, fun other y r' hm hr' => ?_⟩
  · rcases Object.mem_keys_set.mp hk with rfl | hk
    · rw [hr] at hnone; cases hnone
    · exact h.columns other hk hnone
  · rcases Object.eq_or_ne_of_mem_set h.distinct hm with he | ⟨hne, hm⟩
    · cases he
      rw [hr] at hr'
      cases hr'
      exact .inl ⟨ho, hv⟩
    · rcases h.related other y r' hm hr' with hdone | ⟨hin, hy⟩
      · exact .inl hdone
      · exact .inr ⟨(List.mem_cons.mp hin).resolve_left hne, hy⟩

theorem Pending.skip (h : Pending v test entity (name :: names) tree)
    (hno : ∀ r, v.schema.relation? entity name = .ok (some r) →
      ∀ y, Include.entry v entity r [] ≠ .ok (some y)) : Pending v test entity names tree := by
  refine ⟨h.distinct, h.columns, fun other x r hm hr => ?_⟩
  rcases h.related other x r hm hr with hdone | ⟨hin, y, hy⟩
  · exact .inl hdone
  · rcases List.mem_cons.mp hin with rfl | hin
    · exact absurd hy (hno r hr y)
    · exact .inr ⟨hin, y, hy⟩

theorem Pending.skip_closed (h : Pending v test entity (name :: names) tree)
    (hr : v.schema.relation? entity name = .ok (some r)) (he : Include.entry v entity r [] = .ok none) :
    Pending v test entity names tree := by
  refine h.skip fun r' hr' y hy => ?_
  rw [hr] at hr'
  cases hr'
  rw [he] at hy
  cases hy

/-- The tree of some names has those that are not omitted. -/
theorem mem_scalarTree {omission : Object} {listed : List String} (ho : v.omission entity = .ok omission)
    (hm : (name, x) ∈ scalarTree omission listed) : name ∈ listed ∧ ¬ v.Omits entity name ∧ x = .bool true := by
  obtain ⟨n, hn, he⟩ := List.mem_map.mp (Object.mem_of_mem_ofMembers hm)
  cases he
  obtain ⟨hn, hnot⟩ := List.mem_filter.mp hn
  refine ⟨hn, fun hom => ?_, rfl⟩
  rcases Viewpoint.get?_omission ho name with ⟨_, hget⟩ | ⟨hno, _⟩
  · simp [Object.contains, hget] at hnot
  · exact hno hom

/-- The tree of the names alone waits for the entries of the relations among them. -/
theorem Pending.start {omission : Object} {fields : String} (hc : CoveredBy v known entity followed fields)
    (htest : ∀ {parent r nested x}, known parent r → Include.entry v parent r nested = .ok (some x) → test r x)
    (ho : v.omission entity = .ok omission) :
    Pending v test entity followed (scalarTree omission (parseFields fields).1) := by
  obtain ⟨plain, relations, _⟩ := hc
  refine ⟨Object.nodup_keys_ofMembers, fun name hk _ => ?_, fun name x r hm hr => ?_⟩
  · obtain ⟨kv, hm, rfl⟩ := List.mem_map.mp hk
    exact (mem_scalarTree ho hm).2.1
  · obtain ⟨hn, hnot, rfl⟩ := mem_scalarTree ho hm
    obtain ⟨y, hy, hin | rfl⟩ := (plain name hn r hr).resolve_left hnot
    · exact .inr ⟨hin, y, hy⟩
    · exact .inl ⟨htest (relations name r (.inl hn) hr) hy, Include.entry_passes hy Shape.passesTree_empty⟩

/-! ## Relations by path -/

theorem entryFilter_cases (content : Value) :
    entryFilter content = [] ∨ ∃ filter, entryFilter content = [("where", filter)] := by
  unfold entryFilter
  split
  · dsimp only
    split
    · exact .inr ⟨_, rfl⟩
    · exact .inl rfl
  · exact .inl rfl

/-- The filter of an entry is kept when only some fields are read. -/
theorem get_where_entryFilter {content tree : Value} :
    Object.get (("select", tree) :: entryFilter content) "where" =
      if (Object.get (Shape.members content) "where").isPresent then Object.get (Shape.members content) "where"
      else .null := by
  show Object.get (entryFilter content) "where" = _
  cases content with
  | object parts =>
      show _ = if (Object.get parts "where").isPresent then Object.get parts "where" else .null
      by_cases hpresent : (Object.get parts "where").isPresent = true
      · simp only [entryFilter, hpresent, ↓reduceIte]
        rfl
      · simp only [entryFilter, hpresent]
        rfl
  | _ => rfl

theorem opens_entryFilter {content tree : Value} (h : Shape.Opens v r content) :
    Shape.Opens v r (.object (("select", tree) :: entryFilter content)) := by
  obtain ⟨d, hd, hden, hw⟩ := h
  refine ⟨d, hd, hden, fun hl => ?_⟩
  rw [or_iff_not_imp_left]
  intro hne
  have hf := (hw hl).resolve_left hne
  rw [Shape.members, get_where_entryFilter, hf, if_pos (by simpa [Value.isPresent] using hne)]

section Passing

/-! What every entry passes that is made for a known relation, and still passes when only some fields are read,
the tree of a field list passes. -/

variable (htest : ∀ {parent r nested x}, known parent r → Include.entry v parent r nested = .ok (some x) → test r x)
  (hkept : ∀ {r content tree}, test r content → test r (.object (("select", tree) :: entryFilter content)))

include htest hkept

theorem relationSelect_passes {fuel : Nat} : ∀ {r : Relation} {rests : List String} {content x : Value},
    (joinTexts "," rests).length ≤ fuel → CoveredBy v known r.target (heads rests) (joinTexts "," rests) →
    test r content → relationSelect v fuel r rests content = .ok x →
    test r x ∧ Shape.Passes v test r.target (Shape.members x) := by
  induction fuel using Nat.strongRecOn with
  | ind fuel ih =>
      intro r rests content x hfuel hc ho h
      rw [relationSelect] at h
      simp only [bind_ok_iff, pure_ok_iff] at h
      obtain ⟨omission, hom, e, he, tree, htree, rfl⟩ := h
      refine ⟨hkept ho, ?_⟩
      have hstart := Pending.start hc htest hom
      obtain ⟨_, relations, below⟩ := hc
      have hdone : Pending v test r.target [] tree := by
        refine foldlM_ok_invariant (I := fun rest tree => Pending v test r.target (rest.map Prod.fst) tree)
          (fun {item rest state next} hin hp hstep => ?_) hstart htree
        obtain ⟨name, paths⟩ := item
        have hrel := Schema.relation?_of_entity he name
        dsimp only at hstep
        split at hstep
        · cases hstep
        · rename_i child hchild
          rw [hchild] at hrel
          have hu := relations name child (.inr (List.mem_map.mpr ⟨_, hin, rfl⟩)) hrel
          obtain ⟨entry, hentry, hstep⟩ := bind_ok_iff.mp hstep
          split at hstep
          · rw [pure_ok_iff] at hstep
            subst hstep
            exact hp.skip_closed hrel hentry
          · have hlt := length_rests_lt hin
            split at hstep
            · omega
            · simp only [bind_ok_iff, pure_ok_iff] at hstep
              obtain ⟨below', hbelow, rfl⟩ := hstep
              obtain ⟨hopen, hpasses⟩ := ih _ (Nat.lt_succ_self _) (by omega) (below name paths child hin hrel)
                (htest hu hentry) hbelow
              exact hp.set hrel hopen hpasses
      refine hdone.passes rfl ?_
      rcases entryFilter_cases content with hf | ⟨filter, hf⟩ <;> rw [hf] <;> rfl

end Passing

/-! ## Whole requests -/

/-- The tree with the entry of an available relation, if there is one. -/
def entered (v : Viewpoint) (entity : String) (e : Entity) (groups : List (String × List String))
    (tree : Object) (name : String) : Except Failure Object := do
  match e.relation? name with
  | none => return tree
  | some r =>
    match ← Include.entry v entity r [] with
    | none => return tree
    | some content =>
      match groups.lookup name with
      | some rests =>
        return Object.set name (← relationSelect v (joinTexts "," rests).length r rests content) tree
      | none => return Object.set name content tree

/-- The shape for a field list that is not blank is a tree of the plain names, in which the entries of
the available relations are set one after the other. -/
theorem compile_ok {maxDepth : Int} {fields : String} {includes : Value} {shape : Shape}
    (hne : trimText fields ≠ "") (h : compile v maxDepth entity (.text fields) includes = .ok shape) :
    ∃ request query available omission e tree, IncludeRequest.ofValue includes = .ok request ∧
      request.text? = .ok query ∧ Include.available v entity query = .ok available ∧
      v.omission entity = .ok omission ∧ v.schema.entity entity = .ok e ∧
      available.foldlM (entered v entity e (parseFields fields).2)
        (scalarTree omission (parseFields fields).1) = .ok tree ∧
      shape = { selects := some tree } := by
  have htext : fieldText (.text fields) = .ok fields := rfl
  rw [compile, htext, bind_ok_iff] at h
  obtain ⟨_, hfields, h⟩ := h
  cases hfields
  simp only [hne, ↓reduceIte, bind_ok_iff, pure_ok_iff] at h
  obtain ⟨request, hrequest, query, hquery, available, havailable, _, _, omission, ho, e, he, tree, htree,
    rfl⟩ := h
  exact ⟨request, query, available, omission, e, tree, hrequest, hquery, havailable, ho, he, htree, rfl⟩

/-- Either no entry belongs to a name, or the tree has what was made of the entry in its place. -/
theorem entered_ok {e : Entity} {groups : List (String × List String)} {next : Object}
    (he : v.schema.entity entity = .ok e) (h : entered v entity e groups tree name = .ok next) :
    (next = tree ∧ ∀ r, v.schema.relation? entity name = .ok (some r) →
      Include.entry v entity r [] = .ok none) ∨
    ∃ r content x, v.schema.relation? entity name = .ok (some r) ∧
      Include.entry v entity r [] = .ok (some content) ∧ next = Object.set name x tree ∧
      (x = content ∨ ∃ rests, (name, rests) ∈ groups ∧
        relationSelect v (joinTexts "," rests).length r rests content = .ok x) := by
  have hrel := Schema.relation?_of_entity he name
  rw [entered] at h
  split at h
  · rename_i hnone
    rw [pure_ok_iff] at h
    refine .inl ⟨h.symm, fun r hr => ?_⟩
    rw [hrel, hnone] at hr
    cases hr
  · rename_i r hr
    rw [hr] at hrel
    obtain ⟨entry, hentry, h⟩ := bind_ok_iff.mp h
    split at h
    · rw [pure_ok_iff] at h
      refine .inl ⟨h.symm, fun r' hr' => ?_⟩
      rw [hrel] at hr'
      cases hr'
      exact hentry
    · rename_i content
      refine .inr ⟨r, content, ?_⟩
      split at h
      · rename_i rests hlookup
        simp only [bind_ok_iff, pure_ok_iff] at h
        obtain ⟨x, hx, rfl⟩ := h
        have hmem : (name, rests) ∈ groups := by
          obtain ⟨_, _, heq, _⟩ := List.lookup_eq_some_iff.mp hlookup
          rw [heq]
          simp
        exact ⟨x, hrel, hentry, rfl, .inr ⟨rests, hmem, hx⟩⟩
      · rw [pure_ok_iff] at h
        exact ⟨content, hrel, hentry, h.symm, .inl rfl⟩

/-- The shape for a field list that is not blank selects a tree, which passes if the list is covered. -/
theorem compile_passes {maxDepth : Int} {fields : String} {includes : Value} {shape : Shape}
    (htest : ∀ {parent r nested x}, known parent r → Include.entry v parent r nested = .ok (some x) → test r x)
    (hkept : ∀ {r content tree}, test r content → test r (.object (("select", tree) :: entryFilter content)))
    (hne : trimText fields ≠ "")
    (hc : ∀ request query available, IncludeRequest.ofValue includes = .ok request → request.text? = .ok query →
      Include.available v entity query = .ok available → CoveredBy v known entity available fields)
    (h : compile v maxDepth entity (.text fields) includes = .ok shape) :
    ∃ tree, shape = { selects := some tree } ∧ Shape.Passes v test entity [("select", .object tree)] := by
  obtain ⟨request, query, available, omission, e, tree, hrequest, hquery, havailable, ho, he, htree, rfl⟩ :=
    compile_ok hne h
  have hcov := hc request query available hrequest hquery havailable
  have hstart := Pending.start hcov htest ho
  obtain ⟨_, relations, below⟩ := hcov
  have hdone : Pending v test entity [] tree := by
    refine foldlM_ok_invariant (I := fun names tree => Pending v test entity names tree)
      (fun {name rest state next} hin hp hstep => ?_) hstart htree
    rcases entered_ok he hstep with ⟨rfl, hclosed⟩ | ⟨r, content, x, hr, hcontent, rfl, hx⟩
    · refine hp.skip fun r hr y hy => ?_
      rw [hclosed r hr] at hy
      cases hy
    · have hopen : test r content := htest (relations name r (.inr hin) hr) hcontent
      rcases hx with rfl | ⟨rests, hmem, hx⟩
      · exact hp.set hr hopen (Include.entry_passes hcontent Shape.passesTree_empty)
      · obtain ⟨hopen, hpasses⟩ :=
          relationSelect_passes htest hkept (Nat.le_refl _) (below name rests r hmem hr) hopen hx
        exact hp.set hr hopen hpasses
  exact ⟨tree, rfl, hdone.passes rfl rfl⟩

/-- The tree of a covered request is vetted. -/
theorem compile_vetted {maxDepth : Int} {fields : String} {includes : Value} {shape : Shape}
    (hne : trimText fields ≠ "") (hc : CoveredRequest v entity fields includes)
    (h : compile v maxDepth entity (.text fields) includes = .ok shape) :
    ∃ tree, shape = { selects := some tree } ∧ Shape.Vetted v entity [("select", .object tree)] :=
  compile_passes (fun hu hentry => Include.entry_opens hentry hu) opens_entryFilter hne
    (fun request query available hrequest hquery havailable =>
      (hc request query available hrequest hquery havailable).unconditional) h

/-- A name that is not omitted stays in the tree as it is if no entry takes its place, even if it
names a relation: nothing asks what the relation leads to. -/
theorem compile_bare {maxDepth : Int} {fields : String} {includes : Value}
    (hne : trimText fields ≠ "") (hn : name ∈ (parseFields fields).1) (hno : ¬ v.Omits entity name)
    (hclosed : ∀ request query available, IncludeRequest.ofValue includes = .ok request →
      request.text? = .ok query → Include.available v entity query = .ok available → name ∈ available →
      ∀ r, v.schema.relation? entity name = .ok (some r) → Include.entry v entity r [] = .ok none)
    (h : compile v maxDepth entity (.text fields) includes = .ok { selects := some tree }) :
    Object.get? name tree = some (.bool true) := by
  obtain ⟨request, query, available, omission, e, tree', hrequest, hquery, havailable, ho, he, htree, heq⟩ :=
    compile_ok hne h
  cases heq
  have hstart : Object.get? name (scalarTree omission (parseFields fields).1) = some (.bool true) := by
    have hcontains : Object.contains omission name = false := by
      rcases Viewpoint.get?_omission ho name with ⟨hom, _⟩ | ⟨_, hget⟩
      · exact absurd hom hno
      · rw [Object.contains, hget]; rfl
    rw [scalarTree, Object.get?_ofMembers_map, if_pos (List.mem_filter.mpr ⟨hn, by simp [hcontains]⟩)]
  refine foldlM_ok_kept (I := fun state => Object.get? name state = some (.bool true))
    (fun {other state next} hin hget hstep => ?_) hstart htree
  rcases entered_ok he hstep with ⟨rfl, _⟩ | ⟨r, content, x, hr, hcontent, rfl, _⟩
  · exact hget
  · have hother : other ≠ name := by
      rintro rfl
      rw [hclosed request query available hrequest hquery havailable hin r hr] at hcontent
      cases hcontent
    rw [Object.get?_set_of_ne hother]
    exact hget

end Selection

end RecordGraph
