import RecordGraph.Proofs.Query.Included

/-!
# Rows of included and of selected relations

A request with a field list selects from the relations that it would include without one. The entry of a relation
carries the same filter both ways, as long as the request puts no condition on the relation: a condition narrows the
rows of the relation where it is included, and is lost where it is selected.
-/

namespace RecordGraph

namespace Include

variable {v : Viewpoint} {entity parent name : String} {r : Relation} {nested other tree plain : Object} {x y : Value}
  {groups : List (String × List String)} {names : List String} {further : Relation → List String → Except Failure Object}

/-! ## Filters of entries -/

theorem filterOf_eq_of_entry (hx : entry v parent r nested = .ok (some x)) (hy : entry v parent r other = .ok (some y)) :
    filterOf x = filterOf y := by
  obtain ⟨d, hd, hfilter⟩ := filterOf_of_entry hx
  obtain ⟨d', hd', hfilter'⟩ := filterOf_of_entry hy
  cases hd.symm.trans hd'
  rw [hfilter, hfilter']

theorem filterOf_present (h : entry v parent r nested = .ok (some x)) :
    (if (filterOf x).isPresent then filterOf x else .null) = filterOf x := by
  obtain ⟨d, _, hfilter⟩ := filterOf_of_entry h
  rw [hfilter]
  by_cases hpresent : (rowFilter parent r d).isPresent = true
  · rw [if_pos hpresent, if_pos hpresent]
  · rw [if_neg hpresent]
    rfl

/-! ## Relations that are offered -/

/-- A tree holds the entries of the available relations whose targets may be read, and no others. -/
structure Offers (v : Viewpoint) (entity : String) (names : List String) (tree : Object) : Prop where
  entries : ∀ name x, Object.get? name tree = some x → name ∈ names ∧ ∃ r nested,
    v.schema.relation? entity name = .ok (some r) ∧ entry v entity r nested = .ok (some x)
  all : ∀ name r, name ∈ names → v.schema.relation? entity name = .ok (some r) → v.Readable r.target →
    ∃ x, Object.get? name tree = some x

theorem level_offers (hnames : ∀ name r, v.schema.relation? entity name = .ok (some r) →
      (name ∈ names ↔ ∃ rests, (name, rests) ∈ groups))
    (h : level v further entity groups = .ok tree) : Offers v entity names tree where
  entries name x hx := by
    obtain ⟨rests, r, nested, hin, hr, _, hentry⟩ := (get?_level h name).1 x hx
    exact ⟨(hnames name r hr).mpr ⟨rests, hin⟩, r, nested, hr, hentry⟩
  all name r hin hr hread := by
    obtain ⟨rests, hgroup⟩ := (hnames name r hr).mp hin
    exact (get?_level h name).2 rests r hgroup hr hread

/-- To include every relation is to include the paths that are their names. -/
theorem everyRelation_level (further : Relation → List String → Except Failure Object) (hs : v.schema.Distinct)
    (h : everyRelation v entity = .ok tree) :
    ∃ e, v.schema.entity entity = .ok e ∧ level v further entity (e.relations.map fun r => (r.name, [])) = .ok tree := by
  obtain ⟨e, he, h⟩ := bind_ok_iff.mp h
  refine ⟨e, he, bind_ok_iff.mpr ⟨e, he, ?_⟩⟩
  rw [List.foldlM_map, ← h]
  refine foldlM_congr (fun r hin tree => ?_) []
  dsimp only
  rw [hs.relation? he hin]
  rfl

/-- The tree of a query offers the relations that the query makes available. -/
theorem unconditioned_offers (hs : v.schema.Distinct) {maxDepth : Int} {asked : Option String}
    (hnames : available v entity asked = .ok names) (h : unconditioned v maxDepth entity asked = .ok plain) :
    Offers v entity names plain := by
  cases asked with
  | none =>
      obtain rfl := pure_ok_iff.mp hnames
      obtain rfl := pure_ok_iff.mp h
      exact ⟨nofun, nofun⟩
  | some query =>
      obtain ⟨e, he, hnames⟩ := bind_ok_iff.mp hnames
      rw [unconditioned] at h
      by_cases hall : trimText query = allRelations
      · rw [if_pos hall] at hnames
        rw [if_neg (by rw [hall]; decide), if_pos hall] at h
        obtain rfl := pure_ok_iff.mp hnames
        obtain ⟨e', he', h⟩ := everyRelation_level (fun _ _ => pure []) hs h
        cases he.symm.trans he'
        refine level_offers (fun name r hr => ?_) h
        simp
      · rw [if_neg hall] at hnames h
        obtain rfl := pure_ok_iff.mp hnames
        have hlisted (name : String) (r : Relation) (hr : v.schema.relation? entity name = .ok (some r)) :
            (name ∈ ((groupPaths query).map Prod.fst).filter fun name => (e.relation? name).isSome) ↔
              ∃ rests, (name, rests) ∈ groupPaths query := by
          have hsome : e.relation? name = some r := Except.ok.inj ((Schema.relation?_of_entity he name).symm.trans hr)
          simp [hsome]
        split at h
        · rename_i hblank
          obtain rfl := pure_ok_iff.mp h
          refine ⟨nofun, fun name r hin hr _ => ?_⟩
          exact absurd (lists_single_iff.mpr ((hlisted name r hr).mp hin)) (not_lists_blank hblank)
        · cases hdepth : (maxDepth - 1).toNat with
          | zero | succ depth =>
              rw [hdepth] at h
              exact level_offers hlisted h

end Include

namespace Selection

open Include (filterOf)

variable {v : Viewpoint} {entity parent name : String} {r : Relation} {content x : Value} {tree : Object}
  {rests : List String}

/-- The filter of an entry is kept where only some fields are read. -/
theorem relationSelect_filterOf {fuel : Nat} (hc : Include.entry v parent r [] = .ok (some content))
    (h : relationSelect v fuel r rests content = .ok x) : filterOf x = filterOf content := by
  rw [relationSelect] at h
  simp only [bind_ok_iff, pure_ok_iff] at h
  obtain ⟨_, _, _, _, tree, _, rfl⟩ := h
  exact get_where_entryFilter.trans (Include.filterOf_present hc)

/-- A relation in a selection keeps the filter of its entry if it is available. It has none if it is there by its name
alone. -/
theorem filterOf_selected {e : Entity} {groups : List (String × List String)} {names : List String} {start : Object}
    (he : v.schema.entity entity = .ok e) (hr : v.schema.relation? entity name = .ok (some r))
    (hstart : ∀ x, Object.get? name start = some x → x = .bool true)
    (h : names.foldlM (entered v entity e groups) start = .ok tree) (hx : Object.get? name tree = some x) :
    (name ∈ names ∧ ∃ content, Include.entry v entity r [] = .ok (some content) ∧ filterOf x = filterOf content) ∨
      (filterOf x = .null ∧ (name ∈ names → Include.entry v entity r [] = .ok none)) := by
  have hlast := foldlM_ok_invariant (I := fun rest state => ∀ x, Object.get? name state = some x →
      (name ∈ names ∧ ∃ content, Include.entry v entity r [] = .ok (some content) ∧ filterOf x = filterOf content) ∨
        (filterOf x = .null ∧ (name ∈ names → name ∈ rest ∨ Include.entry v entity r [] = .ok none))) ?_ ?_ h
  · exact (hlast x hx).imp_right (And.imp_right fun hnone hin => (hnone hin).resolve_left List.not_mem_nil)
  · intro other rest state next hin hstate hstep x hx
    have hlater (hne : other ≠ name) : name ∈ other :: rest → name ∈ rest :=
      fun hin => (List.mem_cons.mp hin).resolve_left (Ne.symm hne)
    rcases entered_ok he hstep with ⟨rfl, hclosed⟩ | ⟨r', content, y, hr', hcontent, rfl, hy⟩
    · refine (hstate x hx).imp_right (And.imp_right fun hnone hin => ?_)
      by_cases hname : other = name
      · exact .inr (hclosed r (hname ▸ hr))
      · exact (hnone hin).imp_left (hlater hname)
    · by_cases hname : other = name
      · subst hname
        cases hr.symm.trans hr'
        obtain rfl : y = x := Option.some.inj ((Object.get?_set_self _ _ _).symm.trans hx)
        refine .inl ⟨hin, content, hcontent, ?_⟩
        rcases hy with rfl | ⟨rests, _, hselect⟩
        · rfl
        · exact relationSelect_filterOf hcontent hselect
      · rw [Object.get?_set_of_ne hname] at hx
        exact (hstate x hx).imp_right (And.imp_right fun hnone hin => (hnone hin).imp_left (hlater hname))
  · intro x hx
    rw [hstart x hx]
    exact .inr ⟨rfl, .inl⟩

/-- Every relation in a selection carries the filter that it carries where the same request includes it, unless the
request puts a condition on it. -/
theorem selected_as_included (v : Viewpoint) (hs : v.schema.Distinct) {maxDepth : Int} {entity : String}
    {fields includes : Value} {shape : Shape} {selected included : Object} {request : IncludeRequest}
    (hshape : compile v maxDepth entity fields includes = .ok shape) (hselected : shape.selects = some selected)
    (hrequest : IncludeRequest.ofValue includes = .ok request) (hn : request.conditions.keys.Nodup)
    (hincluded : Include.resolve v maxDepth entity request = .ok included) {name : String} {r : Relation}
    (hr : v.schema.relation? entity name = .ok (some r))
    (hfree : ∀ condition, (name, condition) ∈ request.conditions → condition.isPresent = false) {x : Value}
    (hx : Object.get? name selected = some x) : filterOf x = filterOf (Object.get included name) := by
  obtain ⟨text, htext, _⟩ := bind_ok_iff.mp hshape
  have hne : trimText text ≠ "" := by
    intro hblank
    obtain ⟨_, _, _, _, _, _, rfl⟩ := compile_blank htext hblank hshape
    cases hselected
  obtain rfl := text_of_fieldText htext hne
  obtain ⟨request', query, names, omission, e, tree, hrequest', hquery, hnames, ho, he, htree, rfl⟩ := compile_ok hne hshape
  cases hrequest.symm.trans hrequest'
  cases hselected
  obtain ⟨plain, hplain, hadded⟩ := (Include.resolve_ok_iff hquery).mp hincluded
  have hoffers := Include.unconditioned_offers hs hnames hplain
  have hkept : Object.get? name included = Object.get? name plain := by
    rcases Include.conditions_added hn hadded name with hkept | ⟨condition, _, _, hin, hpresent, _⟩
    · exact hkept
    · rw [hfree condition hin] at hpresent
      cases hpresent
  rw [Object.get, hkept]
  have hstart x (hx : Object.get? name (scalarTree omission (parseFields text).1) = some x) : x = .bool true :=
    (mem_scalarTree ho (Object.mem_of_get? hx)).2.2
  rcases filterOf_selected he hr hstart htree hx with ⟨hin, content, hcontent, hfilter⟩ | ⟨hnull, hclosed⟩
  · obtain ⟨y, hy⟩ := hoffers.all name r hin hr (Include.entry_readable hcontent)
    obtain ⟨_, r', nested, hr', hentry⟩ := hoffers.entries name y hy
    cases hr.symm.trans hr'
    rw [hfilter, hy, Option.getD_some, Include.filterOf_eq_of_entry hcontent hentry]
  · cases hy : Object.get? name plain with
    | none => exact hnull
    | some y =>
        obtain ⟨hin, r', nested, hr', hentry⟩ := hoffers.entries name y hy
        cases hr.symm.trans hr'
        exact absurd (Include.entry_readable hentry) (Include.entry_none (hclosed hin))

/-! Comments that are read with a post, with and without a condition on them. -/

/-- A request for the comments of a post with a condition on a relation. -/
def conditioned (name : String) (condition : Object) : Value :=
  .object [("query", .text "comments"), ("rule", .object [(name, .object condition)])]

def approval : Object := [("approved", .bool true)]

def selectedComments (filter : Object) : Object := [("id", .bool true),
  ("comments", .object (("select", .object [("body", .bool true)]) :: filter))]

def includedComments : Object := [("comments", .object [("where", .object approval)])]

/-- Anyone may read anything. -/
def unruled : Viewpoint := ⟨Catalog.blogCatalog.schema, ⟨[]⟩, .principal {}⟩

/-- A condition on the author leaves the comments as the rules filter them. -/
theorem approvedComments_alike :
    Include.approvedOnly.schema.Distinct ∧
    compile Include.approvedOnly 10 "Post" (.text "id,comments.body") (conditioned "author" [("id", .int 7)]) =
      .ok { selects := some (selectedComments [("where", .object approval)]) } ∧
    IncludeRequest.ofValue (conditioned "author" [("id", .int 7)]) =
      .ok ⟨.text "comments", [("author", .object [("id", .int 7)])]⟩ ∧
    (Object.keys [("author", Value.object [("id", .int 7)])]).Nodup ∧
    Include.resolve Include.approvedOnly 10 "Post" ⟨.text "comments", [("author", .object [("id", .int 7)])]⟩ =
      .ok includedComments ∧
    filterOf (Object.get (selectedComments [("where", .object approval)]) "comments") =
      filterOf (Object.get includedComments "comments") := by
  have hs : Include.approvedOnly.schema.Distinct := Schema.distinct_of_all (by decide)
  have hshape : compile Include.approvedOnly 10 "Post" (.text "id,comments.body") (conditioned "author" [("id", .int 7)]) =
      .ok { selects := some (selectedComments [("where", .object approval)]) } := by cbv
  have hrequest : IncludeRequest.ofValue (conditioned "author" [("id", .int 7)]) =
      .ok ⟨.text "comments", [("author", .object [("id", .int 7)])]⟩ := rfl
  have hn : (Object.keys [("author", Value.object [("id", .int 7)])]).Nodup := by decide
  have hincluded : Include.resolve Include.approvedOnly 10 "Post"
      ⟨.text "comments", [("author", .object [("id", .int 7)])]⟩ = .ok includedComments := by cbv
  have hr : Include.approvedOnly.schema.relation? "Post" "comments" = .ok (some Include.comments) := by cbv
  have hfree : ∀ condition, ("comments", condition) ∈ [("author", Value.object [("id", .int 7)])] →
      condition.isPresent = false :=
    fun condition hin => absurd (Prod.mk.inj (List.mem_singleton.mp hin)).1 (by decide)
  exact ⟨hs, hshape, hrequest, hn, hincluded,
    selected_as_included Include.approvedOnly hs hshape rfl hrequest hn hincluded hr hfree rfl⟩

/-- A comment that was rejected is selected, where the same request does not include it for a condition on comments. -/
theorem rejected_selected :
    compile unruled 10 "Post" (.text "id,comments.body") (conditioned "comments" approval) =
      .ok { selects := some (selectedComments []) } ∧
    IncludeRequest.ofValue (conditioned "comments" approval) = .ok ⟨.text "comments", [("comments", .object approval)]⟩ ∧
    Include.resolve unruled 10 "Post" ⟨.text "comments", [("comments", .object approval)]⟩ = .ok includedComments ∧
    unruled.schema.relation? "Post" "comments" = .ok (some Include.comments) ∧ Include.comments.isList = true ∧
    Include.rejected ∈ Catalog.blogDatabase.rows Include.commentModel ∧
    Catalog.blogCatalog.Satisfies Include.commentModel Catalog.blogDatabase Include.rejected
      (filterOf (Object.get (selectedComments []) "comments")) ∧
    ¬ Catalog.blogCatalog.Satisfies Include.commentModel Catalog.blogDatabase Include.rejected
      (filterOf (Object.get includedComments "comments")) := by
  have hrows : Catalog.blogDatabase.rows Include.commentModel = [[("id", .integer 1), ("body", .text "yes"),
      ("approved", .integer 1), ("postId", .integer 3)], Include.rejected] := by cbv
  have hfilter : filterOf (Object.get includedComments "comments") = .object approval := rfl
  have hc : Catalog.blogCatalog.condition Include.commentModel (.object approval) =
      .ok (.all [.compare .equal "approved" (.ok (.integer 1))]) := by cbv
  refine ⟨by cbv, rfl, by cbv, by cbv, rfl, by simp [hrows], Catalog.satisfies_absent rfl rfl, ?_⟩
  rintro ⟨cond, hcond, hs⟩
  rw [hfilter, hc] at hcond
  cases hcond
  cases hs

end Selection

end RecordGraph
