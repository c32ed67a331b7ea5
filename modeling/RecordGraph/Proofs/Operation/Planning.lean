import RecordGraph.Proofs.Mutation.Misshapen
import RecordGraph.Proofs.Operation.Paging
import RecordGraph.Proofs.Query.Selected

/-!
# Lists that are planned or refused

Whatever texts a list is asked for with, it is planned or refused. A name that no relation has is passed over or refused
as invalid, and an entity that the user may not read is left out. The filter is the exception: a text of clauses has to
be one that is read or refused. If nothing behind the engine fails in another way, the list ends with a page or with a
request error.
-/

namespace RecordGraph

theorem FailsOnly.of_validating {α : Type} {x : Except Failure α} (h : Validating x) : Refusing x := by
  refine h.mono fun failure => ?_
  rintro ⟨message, data, rfl⟩
  rfl

/-- Nothing, or a text. -/
def Value.IsWording (v : Value) : Prop := v = .null ∨ ∃ s, v = .text s

theorem Value.IsWording.asked_ok {query : Value} (h : query.IsWording) :
    ∃ asked, (⟨query, []⟩ : IncludeRequest).text? = .ok asked := by
  rcases h with rfl | ⟨s, rfl⟩ <;> exact ⟨_, rfl⟩

section Shapes

variable {v : Viewpoint} {e : Entity} {entity parent name : String} {r : Relation} {nested : Object}

theorem Viewpoint.omission_refusing (hr : v.rules.Answer) (entity : String) : Refusing (v.omission entity) :=
  (hr.omitted entity).bind fun _ _ => .ok

/-! ## Included relations -/

namespace Include

variable {further : Relation → List String → Except Failure Object} {groups : List (String × List String)}

theorem entry_refusing (hr : v.rules.Answer) : Refusing (entry v parent r nested) := by
  refine (hr.decide .read r.target).bind fun d _ => ?_
  split
  · exact .ok
  · exact (v.omission_refusing hr r.target).bind fun _ _ => .ok

/-- Setting the entry of a relation in a tree, if there is one. -/
theorem added_refusing (hr : v.rules.Answer) {tree : Object} : Refusing (do
    match ← entry v parent r nested with
    | some x => return Object.set name x tree
    | none => return tree) := by
  refine (entry_refusing hr).bind fun made _ => ?_
  cases made with
  | none | some x => exact .ok

theorem level_refusing (hr : v.rules.Answer) (he : v.schema.entity entity = .ok e)
    (hfurther : ∀ r ∈ e.relations, ∀ rests, Refusing (further r rests)) : Refusing (level v further entity groups) := by
  unfold level
  rw [he]
  refine .fold fun group _ tree => ?_
  obtain ⟨name, rests⟩ := group
  dsimp only
  split
  · exact .ok
  · rename_i r hr'
    split
    · exact added_refusing hr
    · exact (hfurther r (List.mem_of_find?_eq_some hr') rests).bind fun _ _ => added_refusing hr

theorem paths_refusing (hs : v.schema.Linked) (hr : v.rules.Answer) {depth : Nat}
    (he : v.schema.entity entity = .ok e) : Refusing (paths v depth entity groups) := by
  induction depth generalizing entity e groups with
  | zero => exact level_refusing hr he fun _ _ _ => .ok
  | succ depth ih =>
      refine level_refusing hr he fun r hin rests => ?_
      obtain ⟨target, ht⟩ := hs entity e he r hin
      exact ih ht

theorem everyRelation_refusing (hr : v.rules.Answer) (he : v.schema.entity entity = .ok e) :
    Refusing (everyRelation v entity) := by
  unfold everyRelation
  rw [he]
  exact .fold fun _ _ _ => added_refusing hr

theorem resolve_refusing (hs : v.schema.Linked) (hr : v.rules.Answer) (he : v.schema.entity entity = .ok e)
    {maxDepth : Int} {query : Value} (hq : query.IsWording) : Refusing (resolve v maxDepth entity ⟨query, []⟩) := by
  obtain ⟨asked, hasked⟩ := hq.asked_ok
  refine (FailsOnly.of_ok hasked).bind fun asked _ => ?_
  cases asked with
  | none => exact .ok
  | some query =>
      dsimp only
      split
      · exact .ok
      · split
        · exact (everyRelation_refusing hr he).bind fun _ _ => .ok
        · exact (paths_refusing hs hr he).bind fun _ _ => .ok

end Include

/-! ## Selections -/

namespace Selection

/-- Below a relation, names are followed or refused, by induction on the dots that a path may have. -/
theorem relationSelect_refusing (hs : v.schema.Linked) (hr : v.rules.Answer) {fuel : Nat} {rests : List String}
    {content : Value} (ht : ∃ e, v.schema.entity r.target = .ok e) :
    Refusing (relationSelect v fuel r rests content) := by
  induction fuel using Nat.strongRecOn generalizing r rests content with
  | ind fuel ih =>
      obtain ⟨e, he⟩ := ht
      rw [relationSelect]
      refine (v.omission_refusing hr r.target).bind fun omission _ => ?_
      refine (FailsOnly.of_ok he).bind fun e he => ?_
      refine FailsOnly.bind (.fold fun group _ tree => ?_) fun _ _ => .ok
      obtain ⟨name, paths⟩ := group
      dsimp only
      split
      · exact .error rfl
      · rename_i child hchild
        refine (Include.entry_refusing hr).bind fun made _ => ?_
        split
        · exact .ok
        · split
          · exact .ok
          · exact (ih _ (Nat.lt_succ_self _) (hs _ e he child (List.mem_of_find?_eq_some hchild))).bind fun _ _ => .ok

theorem available_refusing (he : v.schema.entity entity = .ok e) {asked : Option String} :
    Refusing (Include.available v entity asked) := by
  cases asked with
  | none => exact .ok
  | some query =>
      refine (FailsOnly.of_ok he).bind fun e _ => ?_
      split
      · exact .ok
      · exact .ok

theorem entered_refusing (hs : v.schema.Linked) (hr : v.rules.Answer) (he : v.schema.entity entity = .ok e)
    {groups : List (String × List String)} {tree : Object} {name : String} :
    Refusing (entered v entity e groups tree name) := by
  unfold entered
  split
  · exact .ok
  · rename_i r hr'
    refine (Include.entry_refusing hr).bind fun made _ => ?_
    split
    · exact .ok
    · split
      · exact (relationSelect_refusing hs hr (hs entity e he r (List.mem_of_find?_eq_some hr'))).bind fun _ _ => .ok
      · exact .ok

/-- A field list and a list of relations are compiled to a shape or refused. -/
theorem compile_refusing (hs : v.schema.Linked) (hr : v.rules.Answer) (he : v.schema.entity entity = .ok e)
    {maxDepth : Int} {fields includes : Value} (hf : fields.IsWording) (hi : includes.IsWording) :
    Refusing (compile v maxDepth entity fields includes) := by
  have hrequest : IncludeRequest.ofValue includes = .ok ⟨includes, []⟩ := by
    rcases hi with rfl | ⟨s, rfl⟩ <;> rfl
  obtain ⟨text, htext⟩ : ∃ text, fieldText fields = .ok text := by
    rcases hf with rfl | ⟨s, rfl⟩ <;> exact ⟨_, rfl⟩
  obtain ⟨asked, hasked⟩ := hi.asked_ok
  refine (FailsOnly.of_ok htext).bind fun text _ => ?_
  split
  · refine (FailsOnly.of_ok hrequest).bind fun request hsame => ?_
    cases hrequest.symm.trans hsame
    exact (Include.resolve_refusing hs hr he hi).bind fun _ _ =>
      (v.omission_refusing hr entity).bind fun _ _ => .ok
  · refine (FailsOnly.of_ok hrequest).bind fun request hsame => ?_
    cases hrequest.symm.trans hsame
    refine (FailsOnly.of_ok hasked).bind fun asked _ => ?_
    refine (available_refusing he).bind fun available _ => ?_
    refine FailsOnly.bind (.forIn fun group _ _ => ?_) fun _ _ => ?_
    · obtain ⟨name, rests⟩ := group
      dsimp only
      split
      · exact .error rfl
      · exact .ok
    · refine (v.omission_refusing hr entity).bind fun omission _ => ?_
      refine (FailsOnly.of_ok he).bind fun e he => ?_
      have htree : Refusing (available.foldlM (entered v entity e (parseFields text).2)
          (scalarTree omission (parseFields text).1)) :=
        .fold fun _ _ _ => entered_refusing hs hr he
      exact htree.bind fun _ _ => .ok

end Selection

end Shapes

/-! ## Requests -/

namespace Engine

/-- A request for a list in nothing but texts, of which that of the filter is read or refused. -/
structure ListRequest.IsWorded (q : ListRequest) (s : Schema) (entity : String) : Prop where
  options : q.options = .null
  includes : q.includes.IsWording
  fields : q.fields.IsWording
  sortBy : q.sortBy.IsWording
  query : ∀ text, q.query = .text text → Validating (Filter.parse s entity text.toList)

variable {σ : Type} {e : Engine σ} {en : Entity} {entity : String} {user : User} {q : ListRequest}

theorem pageSize_refusing {limit : Value} : Refusing (e.pageSize limit) := by
  unfold pageSize Paging.take
  split
  · split
    · exact .ok
    · exact .error rfl
  · exact .error rfl

theorem sortPath_refusing (he : e.schema.entity entity = .ok en) {sortBy : Value} (hw : sortBy.IsWording) :
    Refusing (e.sortPath entity sortBy) := by
  have hnamed (path : String) : Refusing (
      if path.toList.contains '.' || en.hasField path then pure path
      else if en.isComposite && path == en.keyName then pure en.firstKey
      else throw (.validation "invalid_sort_field" (some [("sortBy", .text path), ("entity", .text entity)])) :
        Except Failure String) := by
    split
    · exact .ok
    · split
      · exact .ok
      · exact .error rfl
  refine (FailsOnly.of_ok he).bind fun en' he' => ?_
  cases he.symm.trans he'
  rcases hw with rfl | ⟨s, rfl⟩
  · simp only [Value.isPresent, Bool.false_eq_true, ↓reduceIte, pure_bind]
    exact hnamed _
  · simp only [pure_bind]
    exact hnamed _

theorem sort_refusing {field direction : Value} : Refusing (Paging.sort field direction) := by
  unfold Paging.sort
  split
  · split
    · split
      · exact .ok
      · exact .error rfl
    · exact .error rfl
  · exact .error rfl

theorem readFilter_refusing (hr : e.rules.Answer) {query : Value}
    (hq : ∀ text, query = .text text → Validating (Filter.parse e.schema entity text.toList)) :
    Refusing (e.readFilter entity user query) := by
  have hguarded (filter : Object) : Refusing (e.rules.readWhere entity user filter) :=
    (hr.filterFor .read entity).bind fun _ _ => .ok
  cases query with
  | text q => exact (FailsOnly.of_validating (hq q rfl)).bind fun filter _ => hguarded filter
  | _ => exact hguarded _

/-- A request in texts is planned or refused. -/
theorem listPlan_refusing (hs : e.schema.Linked) (hr : e.rules.Answer) (he : e.schema.entity entity = .ok en)
    (hq : q.IsWorded e.schema entity) : Refusing (e.listPlan entity user q) := by
  have hshape : Refusing (e.selection entity user q.includes q.fields) :=
    (Selection.compile_refusing (v := e.viewpoint user) hs hr he hq.fields hq.includes).bind fun _ _ => .ok
  refine hshape.bind fun shape _ => ?_
  refine (readFilter_refusing hr hq.query).bind fun filter _ => ?_
  refine (sortPath_refusing he hq.sortBy).bind fun path _ => ?_
  refine sort_refusing.bind fun order _ => ?_
  exact pageSize_refusing.bind fun take _ => .ok

end Engine

/-! ## Pages or request errors -/

def Failure.IsRequest (failure : Failure) : Prop := ∃ err, failure = .request err

/-- What a storage may fail with: a fault, which is told as a request error, or a request error. -/
def Failure.IsTold : Failure → Prop
  | .fault _ | .request _ => True
  | .engine _ | .schema _ | .hook _ | .foreign _ | .illFormed => False

theorem Failure.IsRequest.of_refusal {failure : Failure} (h : failure.isRefusal = true) : failure.IsRequest := by
  cases failure with
  | request err => exact ⟨err, rfl⟩
  | _ => cases h

theorem Act.ends_refusing {σ α : Type} {kept : σ → Prop} {x : Except Failure α} (h : Refusing x) :
    (liftM x : Act σ α).Ends kept Failure.IsRequest fun a => x = .ok a :=
  ends_liftM (h.mono fun _ => .of_refusal)

/-- Hooks that pass on what they are given, or refuse with a request error. -/
def Registry.PassesOn {σ : Type} (r : Registry σ) (kept : σ → Prop) (operation entity : String) : Prop :=
  ∀ stage c, c.entity = entity → (r.execute stage operation c).Ends kept Failure.IsRequest (· = c)

theorem Registry.passesOn_none {σ : Type} {r : Registry σ} {kept : σ → Prop} {operation entity : String}
    (h : r.entries = []) : r.PassesOn kept operation entity := by
  intro stage c _
  rw [execute, handlers_none h]
  exact Act.ends_pure rfl

namespace Engine

variable {σ : Type} {e : Engine σ} {kept : σ → Prop} {entity : String} {user : User} {q : ListRequest}

/-- A request as it is planned if hooks pass it on: with the size of its page and the path that it is sorted by. -/
def ListRequest.settled (q : ListRequest) (take : Int) (path : String) : ListRequest :=
  { query := q.query, includes := q.includes, fields := q.fields, limit := .int take
    offset := .int (Paging.skip q.offset), sortBy := .text path, sortOrder := q.sortOrder }

/-- Everything behind an engine answers when a list is asked for: the rules, the hooks, and the storage, of which the
planned rows are asked. -/
structure Listable (e : Engine σ) (kept : σ → Prop) (entity : String) (user : User) (q : ListRequest) : Prop where
  linked : e.schema.Linked
  known : ∃ en, e.schema.entity entity = .ok en
  rules : e.rules.Answer
  hooks : e.hooks.PassesOn kept "get_many" entity
  storage : ∀ take path plan, e.pageSize q.limit = .ok take → e.sortPath entity q.sortBy = .ok path →
    e.listPlan entity user (q.settled take path) = .ok plan →
      (e.listWork entity plan).Ends kept Failure.IsTold fun _ => True

theorem ask_ends {α : Type} {payload : Object} {act : Act σ α} {P : α → Prop} (h : act.Ends kept Failure.IsTold P) :
    (e.ask payload act).Ends kept Failure.IsRequest P := by
  intro s hs
  have hact := h s hs
  rw [ask_run]
  rcases hrun : act.runOn s with ⟨failure | a, t⟩ <;> rw [hrun] at hact
  · cases failure with
    | fault f => exact ⟨_, rfl⟩
    | request err => exact ⟨err, rfl⟩
    | _ => cases hact
  · exact hact

theorem listPlan_skip {plan : Plan} (h : e.listPlan entity user q = .ok plan) :
    plan.skip = some (Paging.skip q.offset) := by
  rw [listPlan_eq] at h
  obtain ⟨_, _, h⟩ := bind_ok_iff.mp h
  obtain ⟨_, _, h⟩ := bind_ok_iff.mp h
  cases pure_ok_iff.mp h
  rfl

theorem skip_skip {offset : Value} : Paging.skip (.int (Paging.skip offset)) = Paging.skip offset := by
  cases offset with
  | int n => exact max_eq_left (le_max_right n 0)
  | _ => rfl

/-- A list ends with a page from the offset on, or with a request error. -/
theorem getMany_ends (h : e.Listable kept entity user q) (hq : q.IsWorded e.schema entity) :
    (e.getMany entity user q).Ends kept Failure.IsRequest fun outcome =>
      ∃ page, outcome = .page page ∧ page.skip = Paging.skip q.offset := by
  obtain ⟨en, hen⟩ := h.known
  have hoptions : Refusing (optionsOf q.options) := by
    rw [hq.options]
    exact .ok
  refine (Act.ends_refusing pageSize_refusing).bind fun take htake => ?_
  refine (Act.ends_refusing (sortPath_refusing hen hq.sortBy)).bind fun path hpath => ?_
  refine (Act.ends_refusing hoptions).bind fun options _ => ?_
  refine (h.hooks "before" _ rfl).bind fun before hbefore => ?_
  have hgoes : before.abort.isPresent = false := by
    rw [hbefore]
    rfl
  have hsettled : q.settled take path = {
      query := before.query, includes := before.includes, fields := before.fields
      limit := if before.take.isPresent then before.take else .int take
      offset := given (.int (Paging.skip q.offset)) before.offset
      sortBy := if before.sortBy.isPresent then before.sortBy else .text path
      sortOrder := if before.sortOrder.isPresent then before.sortOrder else q.sortOrder } := by
    rw [hbefore]
    simp only [ListRequest.settled, ite_self]
    rfl
  have hworded : (q.settled take path).IsWorded e.schema entity :=
    { hq with options := rfl, sortBy := .inr ⟨path, rfl⟩ }
  have hplan : Refusing (e.listPlan entity user (q.settled take path)) :=
    listPlan_refusing h.linked h.rules hen hworded
  simp only [hgoes, Bool.false_eq_true, ↓reduceIte]
  rw [← hsettled]
  refine (Act.ends_refusing hplan).bind fun plan hplan => ?_
  have hskip := listPlan_skip hplan
  refine (ask_ends (h.storage take path plan htake hpath hplan)).bind fun (records, total) _ => ?_
  refine (h.hooks "after" _ rfl).bind fun after hafter => ?_
  subst hafter
  refine Act.ends_pure ⟨_, rfl, ?_⟩
  show plan.skip.getD _ = _
  rw [hskip]
  exact skip_skip

theorem getMany_limit_refused {limit : Value} (hlimit : q.limit = limit) (hgiven : limit.isNull = false)
    (h : ∀ n, limit = .int n → n ≤ 0) (s : σ) : (e.getMany entity user q).runOn s =
      (.error (.validation "invalid_limit" (some [("limit", limit)])), s) := by
  have hsize : e.pageSize q.limit = .error (.validation "invalid_limit" (some [("limit", limit)])) := by
    rw [hlimit, pageSize, hgiven]
    cases limit with
    | int n => exact if_neg (Int.not_lt.mpr (h n rfl))
    | _ => rfl
  rw [getMany, hsize]
  rfl

/-- Of an offset, only the number of rows to pass over counts. -/
theorem getMany_offset {offset other : Value} (h : Paging.skip offset = Paging.skip other) :
    e.getMany entity user { q with offset } = e.getMany entity user { q with offset := other } := by
  simp only [getMany, h]

end Engine

end RecordGraph
