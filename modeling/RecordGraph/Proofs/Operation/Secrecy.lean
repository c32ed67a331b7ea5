import RecordGraph.Proofs.Operation.Results
import RecordGraph.Proofs.Relational.Concealment

/-!
# Reads that keep secrets

A request spares a veil if neither its filter nor its order needs a veiled column, and no relation that it asks
for does. Such a request ends alike in databases that differ in veiled columns only.
-/

namespace RecordGraph

/-! ## Entries -/

namespace Include

variable {v : Viewpoint} {c : Catalog} {veil : Veil} {parent : String} {r : Relation} {nested : Object} {x y : Value}

theorem rowFilter_clear (hv : v.Veiled c veil) {d : Decision} (hd : v.decide .read r.target = .ok d) {target : Model}
    (ht : c.model? r.target = some target) : c.Clear veil target (rowFilter parent r d) := by
  unfold rowFilter
  split
  · rename_i hlist
    have htidy := (Rules.decide_tidy hd).resolve_left (by simpa using hlist.2)
    cases hfreed : Guard.withoutParent parent (.object d.filter) with
    | none => exact Catalog.clear_null
    | some freed =>
        rw [Option.bind_some]
        cases hclean : Guard.clean freed with
        | none => exact Catalog.clear_null
        | some filter => exact Catalog.clear_freed htidy (hv.filters ht hd) hfreed hclean
  · exact Catalog.clear_null

/-- The rows of a relation are chosen by what the user may read of its target, which names no veiled column. -/
theorem entry_sober (hv : v.Veiled c veil) (h : entry v parent r nested = .ok (some x)) : Shape.Sober c veil r x := by
  obtain ⟨d, omission, hd, _, _, rfl⟩ := entry_some_iff.mp h
  intro _ target ht
  dsimp only
  rw [members_parts, (get_parts _ _ _).2.2.1]
  split
  · exact rowFilter_clear hv hd ht
  · exact Catalog.clear_null

theorem restrictEntry_sober {condition : Value} (hx : Shape.Sober c veil r x)
    (hc : r.isList = true → ∀ target, c.model? r.target = some target → c.Clear veil target condition)
    (h : restrictEntry condition x = .ok y) : Shape.Sober c veil r y := by
  obtain ⟨own, guarded, rfl, hmembers, hguarded⟩ := restrictEntry_members h
  intro hlist target ht
  rw [hmembers, Object.get, Object.get?_set_self, Option.getD_some]
  rcases hguarded with ⟨rfl, _⟩ | ⟨filter, hfilter, rfl⟩
  · exact hc hlist target ht
  · exact Catalog.conjunctive_clear.merged (hc hlist target ht) (hfilter ▸ hx hlist target ht)

theorem entryFilter_sober {tree : Value} (hx : Shape.Sober c veil r x) :
    Shape.Sober c veil r (.object (("select", tree) :: Selection.entryFilter x)) := by
  intro hlist target ht
  rw [Shape.members, Selection.get_where_entryFilter]
  split
  · exact hx hlist target ht
  · exact Catalog.clear_null

end Include

/-! ## Requests -/

/-- The list that a context asks for. -/
def HookContext.list (context : HookContext) : Engine.ListRequest :=
  { query := context.query, includes := context.includes, fields := context.fields, sortBy := context.sortBy }

namespace Engine

variable {σ : Type} (e : Engine σ) (user : User) (c : Catalog) (veil : Veil) (entity : String)

/-- The filter that a query stands for, before it is joined to what the user may read. -/
def asked (query : Value) : Except Failure Object :=
  match query with
  | .object tree => pure tree
  | .text q => Filter.parse e.schema entity q.toList
  | _ => pure []

/-- A query that names no veiled column. -/
def SparesQuery (query : Value) : Prop :=
  ∀ filter m, e.asked entity query = .ok filter → c.model? entity = some m → c.Clear veil m (.object filter)

/-- A request for a list that names no veiled column: in its filter, in the further conditions on included
relations, as what holds a relation that comes with the records, or in its order. The names of its field list,
if it has one, are covered. -/
structure Spares (r : ListRequest) : Prop where
  query : e.SparesQuery c veil entity r.query
  conditions : Selection.Blank r.fields → ∀ request name condition relation target,
    IncludeRequest.ofValue r.includes = .ok request → (name, condition) ∈ request.conditions →
    e.schema.relation? entity name = .ok (some relation) → relation.isList = true →
    c.model? relation.target = some target → c.Clear veil target condition
  fields : ∀ text, r.fields = .text text → trimText text ≠ "" → ∀ request query available,
    IncludeRequest.ofValue r.includes = .ok request → request.text? = .ok query →
    Include.available (e.viewpoint user) entity query = .ok available →
    Selection.CoveredBy (e.viewpoint user) (fun _ _ => True) entity available text
  relations : ∀ shape m tree,
    Selection.compile (e.viewpoint user) e.settings.maxNestingDepth entity r.fields r.includes = .ok shape →
    c.model? entity = some m → shape.includes = some tree ∨ shape.selects = some tree → c.Forgoes veil m tree
  order : ∀ path m, e.sortPath entity r.sortBy = .ok path → c.model? entity = some m →
    ∀ p ∈ veil, ¬ c.PathNames m (Paging.segments path) p

variable {e user c veil entity} {r : ListRequest} {query : Value} {filter : Object} {m : Model} {p : Plan}

/-! ## Plans -/

theorem readFilter_eq : e.readFilter entity user query = e.asked entity query >>= e.rules.readWhere entity user := by
  cases query <;> rfl

theorem readFilter_clear (hv : (e.viewpoint user).Veiled c veil) (hm : c.model? entity = some m)
    (hs : e.SparesQuery c veil entity query) (h : e.readFilter entity user query = .ok filter) :
    c.Clear veil m (.object filter) := by
  rw [readFilter_eq] at h
  obtain ⟨own, hown, h⟩ := bind_ok_iff.mp h
  obtain ⟨guard, hguard, h⟩ := bind_ok_iff.mp h
  obtain rfl := pure_ok_iff.mp h
  obtain ⟨d, hd, _, rfl⟩ := Rules.filterFor_ok_iff.mp hguard
  exact Catalog.conjunctive_clear.merged (hs own m hown hm) (hv.filters hm hd)

theorem selection_passes (hn : e.schema.Distinct) (hv : (e.viewpoint user).Veiled c veil)
    (hs : e.Spares user c veil entity r) (h : e.selection entity user r.includes r.fields = .ok p) :
    Shape.Passes (e.viewpoint user) (Shape.Sober c veil) entity p.shape := by
  obtain ⟨shape, hshape, rfl⟩ := map_ok_iff.mp h
  by_cases hb : Selection.Blank r.fields
  · obtain ⟨request, hrequest, htree, hselects, homits⟩ := Selection.blank_ok hb hshape
    refine (Plan.included_passes (Include.resolve_passes hn (Include.entry_sober hv)
      (fun name condition hin relation x y hr hx hy => ?_) htree) hselects homits).2
    exact Include.restrictEntry_sober hx
      (fun hlist target ht => hs.conditions hb request name condition relation target hrequest hin hr hlist ht) hy
  · -- a list that is not blank is a text, and further conditions play no part
    obtain ⟨text, htext, hne⟩ : ∃ text, r.fields = .text text ∧ trimText text ≠ "" := by
      simp only [Selection.Blank, not_forall] at hb
      obtain ⟨text, ht, hne⟩ := hb
      exact ⟨text, Selection.text_of_fieldText ht hne, hne⟩
    rw [htext] at hshape
    obtain ⟨tree, rfl, hpasses⟩ := Selection.compile_passes (fun _ hentry => Include.entry_sober hv hentry)
      Include.entryFilter_sober hne (hs.fields text htext hne) hshape
    exact hpasses

theorem listPlan_conceals (hn : e.schema.Distinct) (hv : (e.viewpoint user).Veiled c veil)
    (hm : c.model? entity = some m) (hs : e.Spares user c veil entity r) (h : e.listPlan entity user r = .ok p) :
    p.Conceals (e.viewpoint user) c veil entity m := by
  simp only [listPlan, bind_ok_iff, pure_ok_iff] at h
  obtain ⟨selected, hselected, filter, hfilter, path, hpath, order, horder, _, _, rfl⟩ := h
  obtain ⟨hdirection, rfl⟩ := Paging.sort_ok horder
  have hpasses := selection_passes hn hv hs hselected
  refine ⟨readFilter_clear hv hm hs.query hfilter, fun s hread => ?_, hpasses, ?_⟩
  · exact Sorting.read_clear hdirection (Paging.segments_ne_nil path) (hs.order path m hpath hm) hread
  · obtain ⟨shape, hshape, rfl⟩ := map_ok_iff.mp hselected
    exact fun key hk tree htree => hs.relations shape m tree hshape hm (Plan.tree_of_shape hk htree)

/-! ## Operations -/

/-- Blind hooks go on alike, with what each of them keeps. -/
theorem runHooks_agree {R : σ → σ → Prop} {stage operation : String} {P : HookContext → Prop}
    {context : HookContext → HookContext} (hb : e.hooks.Blind R operation entity)
    (hk : e.hooks.Keeps stage operation entity P)
    (he : (context { entity, operation, stage, user := some user }).entity = entity)
    (hc : P (context { entity, operation, stage, user := some user })) :
    Act.Agree R (fun before before' => before = before' ∧ P before) (e.runHooks stage operation entity user context)
      (e.runHooks stage operation entity user context) :=
  (hb.execute he).also fun _ _ _ hrun => hk.execute he hc hrun

/-- A list by a path that was found for a request, where hooks gave none. -/
theorem Spares.resorted {before : HookContext} {path : String} (hs : e.Spares user c veil entity before.list)
    (hp : e.Spares user c veil entity { r with sortBy := .text path }) {limit offset sortOrder : Value} :
    e.Spares user c veil entity
      { query := before.query, includes := before.includes, fields := before.fields, limit, offset, sortOrder
        sortBy := if before.sortBy.isPresent then before.sortBy else .text path } := by
  refine ⟨hs.query, hs.conditions, hs.fields, hs.relations, fun found m hfound hm => ?_⟩
  dsimp only at hfound
  split at hfound
  · exact hs.order found m hfound hm
  · exact hp.order found m hfound hm

/-- The work of a list: its records, and the number of all that its filter selects. -/
def listing (entity : String) (plan : Plan) (tx : Access σ) : Act σ (List Value × Int) := do
  let records ← tx.findMany entity plan
  let total ← tx.count entity plan.filter
  return (records, total)

section Operations

variable {e : Engine Database} {user : User} {c : Catalog} {clock : Clock} {veil : Veil} {entity : String}
  {db db' : Database} (hstore : e.storage = c.storage clock) (hv : (e.viewpoint user).Veiled c veil)

include hstore hv

theorem getMany_agree {r : ListRequest} (hd : e.schema.Describes c) (hn : e.schema.Distinct)
    (hb : e.hooks.Blind (c.Twins veil) "get_many" entity)
    (hk : e.hooks.Keeps "before" "get_many" entity fun context => e.Spares user c veil entity context.list)
    (hs : ∀ path, e.sortPath entity r.sortBy = .ok path →
      e.Spares user c veil entity { r with sortBy := .text path }) :
    Act.Agree (c.Twins veil) (· = ·) (e.getMany entity user r) (e.getMany entity user r) := by
  unfold getMany
  refine Act.agree_liftM_bind fun take _ => Act.agree_liftM_bind fun path hpath => ?_
  refine Act.agree_liftM_bind fun options _ => ?_
  have hp := hs path hpath
  refine (runHooks_agree hb hk rfl ?_).bind ?_
  · exact ⟨hp.query, hp.conditions, hp.fields, hp.relations, hp.order⟩
  rintro before _ ⟨rfl, hbefore⟩
  split
  · exact Act.agree_pure rfl
  · refine Act.agree_liftM_bind fun plan hplan => ?_
    -- what the hooks made of the request still spares the veil, and so does the plan of it
    have hconceals (m : Model) (hm : c.model? entity = some m) : plan.Conceals (e.viewpoint user) c veil entity m :=
      listPlan_conceals hn hv hm (hbefore.resorted hp) hplan
    have hpage : Act.Agree (c.Twins veil) (· = ·) (e.storage.inTransaction .null (listing entity plan))
        (e.storage.inTransaction .null (listing entity plan)) := by
      rw [hstore]
      refine Query.agree_transaction ((Catalog.findMany_agree hd hv hconceals).bind ?_)
      rintro records _ rfl
      refine (Catalog.count_agree hv fun m hm => (hconceals m hm).filter).bind ?_
      rintro total _ rfl
      exact Act.agree_pure rfl
    refine (agree_ask hpage).bind ?_
    rintro page _ rfl
    refine (hb.execute rfl).bind ?_
    rintro after _ rfl
    exact Act.agree_pure rfl

theorem count_agree {query : Value} (hb : e.hooks.Blind (c.Twins veil) "count" entity)
    (hk : e.hooks.Keeps "before" "count" entity fun context => e.SparesQuery c veil entity context.query)
    (hs : e.SparesQuery c veil entity query) :
    Act.Agree (c.Twins veil) (· = ·) (e.count entity user query) (e.count entity user query) := by
  unfold count
  refine (runHooks_agree hb hk rfl hs).bind ?_
  rintro before _ ⟨rfl, hbefore⟩
  split
  · exact Act.agree_pure rfl
  · have hgiven : e.SparesQuery c veil entity (given query before.query) := by
      unfold given
      split
      · exact hs
      · exact hbefore
    refine Act.agree_liftM_bind fun filter hfilter => ?_
    have hcount : Act.Agree (c.Twins veil) (· = ·) (e.storage.count entity filter) (e.storage.count entity filter) := by
      rw [hstore]
      exact Query.agree_transaction (Catalog.count_agree hv fun m hm => readFilter_clear hv hm hgiven hfilter)
    refine (agree_ask hcount).bind ?_
    rintro total _ rfl
    refine (hb.execute rfl).bind ?_
    rintro after _ rfl
    split <;> exact Act.agree_pure rfl

end Operations

/-- Lists and counts whose requests name no veiled column end alike in databases that differ in veiled columns
only. The columns are omitted for the user, and neither keys nor what the user may read depend on them. -/
theorem sparing_reads_agree {e : Engine Database} {user : User} {c : Catalog} {clock : Clock} {veil : Veil}
    {entity : String} {db db' : Database} (hstore : e.storage = c.storage clock) (hd : e.schema.Describes c)
    (hn : e.schema.Distinct) (hv : (e.viewpoint user).Veiled c veil) (hdb : c.Twins veil db db') :
    (∀ r : ListRequest, e.hooks.Blind (c.Twins veil) "get_many" entity →
      (e.hooks.Keeps "before" "get_many" entity fun context => e.Spares user c veil entity context.list) →
      (∀ path, e.sortPath entity r.sortBy = .ok path →
        e.Spares user c veil entity { r with sortBy := .text path }) →
      ((e.getMany entity user r).runOn db).1 = ((e.getMany entity user r).runOn db').1) ∧
    ∀ query, e.hooks.Blind (c.Twins veil) "count" entity →
      (e.hooks.Keeps "before" "count" entity fun context => e.SparesQuery c veil entity context.query) →
      e.SparesQuery c veil entity query →
      ((e.count entity user query).runOn db).1 = ((e.count entity user query).runOn db').1 :=
  ⟨fun _ hb hk hs => (getMany_agree hstore hv hd hn hb hk hs).outcome hdb,
    fun _ hb hk hs => (count_agree hstore hv hb hk hs).outcome hdb⟩

/-! Two databases of a blog, of which the readers are to see the same. -/

/-- A blog with a password of the first author, keys of the comments and an author of the post. -/
def blogWith (password : String) (first second author : Int) : Database := { tables := [
  ("User", [[("id", .integer 7), ("name", .text "Ann"), ("password", .text password)],
    [("id", .integer 8), ("name", .text "Ben"), ("password", .text "plain")]]),
  ("Comment", [[("id", .integer first), ("body", .text "yes"), ("approved", .integer 1), ("postId", .integer 3)],
    [("id", .integer second), ("body", .text "no"), ("approved", .integer 0), ("postId", .integer 3)]]),
  ("Post", [[("id", .integer 3), ("authorId", .integer author)]])] }

def blogPasswords : Veil := {("User", "password")}

/-- Posts by the name of their author, with all relations. -/
def postsOfAnn : ListRequest := { query := .text "author.name=Ann", includes := .text "ALL" }

theorem blogWith_alike {veil : Veil} {password password' : String} {first first' second second' author author' : Int}
    (hp : ("User", "password") ∉ veil → password = password')
    (hc : ("Comment", "id") ∉ veil → first = first' ∧ second = second')
    (ha : ("Post", "authorId") ∉ veil → author = author') :
    (blogWith password first second author).Alike veil (blogWith password' first' second' author') := by
  refine Database.alike_of_tables (.cons ⟨rfl, ?_⟩ (.cons ⟨rfl, ?_⟩ (.cons ⟨rfl, ?_⟩ .nil))) rfl
  · refine .cons (Row.alike_of_cells ?_) (.cons (Row.alike_of_cells ?_) .nil)
    · simpa using hp
    · simp
  · refine .cons (Row.alike_of_cells ?_) (.cons (Row.alike_of_cells ?_) .nil)
    · simpa using fun h => (hc h).1
    · simpa using fun h => (hc h).2
  · refine .cons (Row.alike_of_cells ?_) .nil
    simpa using ha

theorem passwords_twins :
    Catalog.blogCatalog.Twins blogPasswords (blogWith "secret" 1 2 7) (blogWith "other" 1 2 7) where
  alike := blogWith_alike (fun h => absurd rfl h) (fun _ => ⟨rfl, rfl⟩) fun _ => rfl
  keyed {entity m} hm := by
    have hall : ∀ em ∈ Catalog.blogCatalog.models, ∀ db ∈ [blogWith "secret" 1 2 7, blogWith "other" 1 2 7],
        (∀ row ∈ db.rowsOf em.2.name, ∀ k ∈ em.2.keys, (row.get k).isNull = false) ∧
          (db.rowsOf em.2.name).Pairwise fun row other => ¬ ∀ k ∈ em.2.keys, (row.get k).same (other.get k) = true := by
      decide
    have hboth := hall _ (Catalog.mem_of_model? hm)
    simp only [List.forall_mem_cons] at hboth
    exact ⟨⟨hboth.1.1, hboth.1.2⟩, ⟨hboth.2.1.1, hboth.2.1.2⟩⟩

theorem blogCatalog_models {entity : String} {m : Model} (hm : Catalog.blogCatalog.model? entity = some m) :
    (entity = "User" ∧ m = (Catalog.blogCatalog.model? "User").getD default) ∨
      (entity = "Comment" ∧ m = (Catalog.blogCatalog.model? "Comment").getD default) ∨
      (entity = "Post" ∧ m = (Catalog.blogCatalog.model? "Post").getD default) := by
  have hin := Catalog.mem_of_model? hm
  simp only [Catalog.blogCatalog, List.mem_cons, List.not_mem_nil, or_false, Prod.mk.injEq] at hin
  exact hin

theorem passwords_veiled : (readersBlog.viewpoint (.principal {})).Veiled Catalog.blogCatalog blogPasswords where
  omitted {entity m column} hm hin := by
    obtain ⟨hname, rfl⟩ := Prod.mk.inj hin
    rcases blogCatalog_models hm with ⟨rfl, rfl⟩ | ⟨rfl, rfl⟩ | ⟨rfl, rfl⟩
    · exact ⟨["password"], rfl, List.mem_cons_self⟩
    · exact absurd hname (by decide)
    · exact absurd hname (by decide)
  keys {entity m k} hm hk := by
    rcases blogCatalog_models hm with ⟨rfl, rfl⟩ | ⟨rfl, rfl⟩ | ⟨rfl, rfl⟩ <;> obtain rfl := List.mem_singleton.mp hk <;>
      exact fun hin => absurd (Prod.mk.inj hin).2 (by decide)
  filters {entity m d} hm hd := by
    rcases blogCatalog_models hm with ⟨rfl, rfl⟩ | ⟨rfl, rfl⟩ | ⟨rfl, rfl⟩ <;> cases hd
    · exact Catalog.clear_object_iff.mpr nofun
    · refine Catalog.clear_object_iff.mpr (List.forall_mem_singleton.mpr ?_)
      exact (Catalog.clearMember_column_iff (by decide) rfl rfl).mpr (by simp [blogPasswords])
    · exact Catalog.clear_object_iff.mpr nofun

theorem postsOfAnn_spared : readersBlog.Spares (.principal {}) Catalog.blogCatalog blogPasswords "Post"
    { postsOfAnn with sortBy := .text "id" } where
  query filter m hasked hm := by
    have hfilter : readersBlog.asked "Post" (.text "author.name=Ann") =
        .ok [("author", .object [("name", .object [("equals", .text "Ann")])])] := rfl
    cases hfilter.symm.trans hasked
    cases hm
    refine Catalog.clear_object_iff.mpr (List.forall_mem_singleton.mpr ?_)
    refine (Catalog.clearMember_link_iff (by decide) rfl rfl).mpr ⟨by simp [Link.heldIn, blogPasswords], ?_⟩
    refine List.forall_mem_singleton.mpr (Catalog.clear_object_iff.mpr (List.forall_mem_singleton.mpr ?_))
    exact (Catalog.clearMember_column_iff (by decide) rfl rfl).mpr (by simp [blogPasswords])
  conditions _ request name condition _ _ hrequest hin := by
    cases hrequest
    cases hin
  fields _ h := by cases h
  relations shape m tree hshape hm htree := by
    have hcompiled : Selection.compile (readersBlog.viewpoint (.principal {})) readersBlog.settings.maxNestingDepth
        "Post" .null (.text "ALL") = .ok { includes := some postTree } := rfl
    cases hcompiled.symm.trans hshape
    cases hm
    obtain htree | htree := htree <;> cases htree
    rintro p hp hf
    cases hf with
    | held hin hl hheld =>
        simp only [postTree, List.mem_cons, List.not_mem_nil, or_false, Prod.mk.injEq] at hin
        rcases hin with ⟨rfl, rfl⟩ | ⟨rfl, rfl⟩ <;> cases hl <;> cases hp <;> simp [Link.heldIn] at hheld
    | further hin hl _ hk hn =>
        simp only [postTree, List.mem_cons, List.not_mem_nil, or_false, Prod.mk.injEq] at hin
        simp only [List.mem_cons, List.not_mem_nil, or_false] at hk
        rcases hin with ⟨rfl, rfl⟩ | ⟨rfl, rfl⟩ <;> rcases hk with rfl | rfl <;> cases hn
  order path m hpath hm := by
    have hid : readersBlog.sortPath "Post" (.text "id") = .ok "id" := rfl
    cases hid.symm.trans hpath
    cases hm
    rintro p hp hn
    have hone : Paging.segments "id" = ["id"] := rfl
    rw [hone] at hn
    cases hn
    simp [blogPasswords] at hp

/-- What Ann's posts and their number are to a reader does not depend on her password. -/
theorem passwords_kept :
    readersBlog.storage = Catalog.blogCatalog.storage ∧ readersBlog.schema.Describes Catalog.blogCatalog ∧
    readersBlog.schema.Distinct ∧
    (readersBlog.viewpoint (.principal {})).Veiled Catalog.blogCatalog blogPasswords ∧
    Catalog.blogCatalog.Twins blogPasswords (blogWith "secret" 1 2 7) (blogWith "other" 1 2 7) ∧
    (∀ path, readersBlog.sortPath "Post" postsOfAnn.sortBy = .ok path →
      readersBlog.Spares (.principal {}) Catalog.blogCatalog blogPasswords "Post"
        { postsOfAnn with sortBy := .text path }) ∧
    ((readersBlog.getMany "Post" (.principal {}) postsOfAnn).runOn (blogWith "secret" 1 2 7)).1 =
      ((readersBlog.getMany "Post" (.principal {}) postsOfAnn).runOn (blogWith "other" 1 2 7)).1 ∧
    ((readersBlog.count "Post" (.principal {}) postsOfAnn.query).runOn (blogWith "secret" 1 2 7)).1 =
      ((readersBlog.count "Post" (.principal {}) postsOfAnn.query).runOn (blogWith "other" 1 2 7)).1 := by
  have hd : readersBlog.schema.Describes Catalog.blogCatalog :=
    Catalog.schema_describes Catalog.blogCatalog_wellFormed
  have hs (path : String) (h : readersBlog.sortPath "Post" postsOfAnn.sortBy = .ok path) :
      readersBlog.Spares (.principal {}) Catalog.blogCatalog blogPasswords "Post"
        { postsOfAnn with sortBy := .text path } := by
    have hid : readersBlog.sortPath "Post" postsOfAnn.sortBy = .ok "id" := rfl
    cases hid.symm.trans h
    exact postsOfAnn_spared
  obtain ⟨hlist, hcount⟩ := @sparing_reads_agree readersBlog (.principal {}) Catalog.blogCatalog .patient
    blogPasswords "Post" _ _ rfl hd blogCatalog_distinct passwords_veiled passwords_twins
  exact ⟨rfl, hd, blogCatalog_distinct, passwords_veiled, passwords_twins, hs,
    hlist postsOfAnn (Registry.blind_none rfl) (Registry.keeps_none rfl) hs,
    hcount _ (Registry.blind_none rfl) (Registry.keeps_none rfl) postsOfAnn_spared.query⟩

/-! ## Requests that do not spare -/

section Runs

variable {s s' t t' : σ}

theorem given_self (v : Value) : given v v = v := ite_self v

theorem count_run (hhooks : e.hooks.entries = []) {n : Int} (hfilter : e.readFilter entity user query = .ok filter)
    (hn : (e.storage.count entity filter).runOn s = (.ok n, t)) :
    (e.count entity user query).runOn s = (.ok (.value (.int n)), t) := by
  rw [count, Act.runOn_bind_of (runHooks_none hhooks)]
  refine (Act.runOn_bind_of (congrArg (·, s) ((congrArg _ (given_self query)).trans hfilter))).trans ?_
  refine (Act.runOn_bind_of (ask_of hn)).trans ?_
  exact (Act.runOn_bind_of (runHooks_none hhooks)).trans rfl

theorem getMany_run (hhooks : e.hooks.entries = []) {take total : Int} {path : String} {options : Value}
    {records : List Value} (htake : e.pageSize r.limit = .ok take) (hpath : e.sortPath entity r.sortBy = .ok path)
    (hoptions : optionsOf r.options = .ok options)
    (hplan : e.listPlan entity user { r with
      limit := .int take, offset := .int (Paging.skip r.offset), sortBy := .text path, options := .null } = .ok p)
    (hread : (e.storage.inTransaction .null (listing entity p)).runOn s = (.ok (records, total), t)) :
    (e.getMany entity user r).runOn s = (.ok (.page { records, take := p.take.getD take
                                                      skip := p.skip.getD (Paging.skip r.offset)
                                                      total := some total }), t) := by
  rw [getMany]
  refine (Act.runOn_bind_of (congrArg (·, s) htake)).trans ?_
  refine (Act.runOn_bind_of (congrArg (·, s) hpath)).trans ?_
  refine (Act.runOn_bind_of (congrArg (·, s) hoptions)).trans ?_
  refine (Act.runOn_bind_of (runHooks_none hhooks)).trans ?_
  rw [if_neg (by simp [Value.isPresent])]
  simp only [ite_self, given_self]
  refine (Act.runOn_bind_of (congrArg (·, s) hplan)).trans ?_
  refine (Act.runOn_bind_of (ask_of hread)).trans ?_
  exact (Act.runOn_bind_of (runHooks_none hhooks)).trans rfl

end Runs

/-! A blog with more omitted columns, on which no filter of rows depends. -/

def strictBlog : Engine Database := { readersBlog with rules := ⟨[
  ("User", { omitted := some fun _ => .ok (.list [.text "password"]) }),
  ("Comment", { omitted := some fun _ => .ok (.list [.text "id"]) }),
  ("Post", { omitted := some fun _ => .ok (.list [.text "authorId"]) })]⟩ }

def blogSecrets : Veil := {("User", "password"), ("Comment", "id"), ("Post", "authorId")}

def firstBlog : Database := blogWith "secret" 1 2 7

def secondBlog : Database := blogWith "other" 2 1 8

theorem secrets_omitted {entity column : String} {m : Model} (hm : Catalog.blogCatalog.model? entity = some m)
    (hin : (m.name, column) ∈ blogSecrets) : (strictBlog.viewpoint (.principal {})).Omits entity column := by
  rcases hin with hin | hin | hin <;> obtain ⟨hname, rfl⟩ := Prod.mk.inj hin <;>
    rcases blogCatalog_models hm with ⟨rfl, rfl⟩ | ⟨rfl, rfl⟩ | ⟨rfl, rfl⟩ <;>
    first | exact ⟨_, rfl, List.mem_cons_self⟩ | exact absurd hname (by decide)

theorem strictBlog_unfiltered {entity : String} {d : Decision}
    (hd : (strictBlog.viewpoint (.principal {})).decide .read entity = .ok d) : d.filter = [] := by
  have hnone : (strictBlog.rules.get? entity).bind Action.read.ask = none := by
    cases hrule : strictBlog.rules.get? entity with
    | none => rfl
    | some rule =>
        obtain ⟨_, _, hentries, _⟩ := List.lookup_eq_some_iff.mp hrule
        have hin : (entity, rule) ∈ strictBlog.rules.entries := by
          rw [hentries]
          simp
        simp only [strictBlog, List.mem_cons, List.not_mem_nil, or_false, Prod.mk.injEq] at hin
        rcases hin with ⟨-, rfl⟩ | ⟨-, rfl⟩ | ⟨-, rfl⟩ <;> rfl
  simp only [Viewpoint.decide, viewpoint, Rules.decide, hnone] at hd
  obtain rfl := pure_ok_iff.mp hd
  rfl

/-- A list of the strict blog, with the default size, tells the two blogs apart. -/
theorem told_apart {r : ListRequest} {entity path : String} {p : Plan} {records records' : List Value}
    {total total' : Int} (hlimit : r.limit = .null) (hoptions : r.options = .null)
    (hpath : strictBlog.sortPath entity r.sortBy = .ok path)
    (hplan : strictBlog.listPlan entity (.principal {}) { r with
      limit := .int 25, offset := .int (Paging.skip r.offset), sortBy := .text path, options := .null } = .ok p)
    (hread : ((Query.transaction none (listing entity p Catalog.blogCatalog.calls)).runOn firstBlog).1 =
      .ok (records, total))
    (hread' : ((Query.transaction none (listing entity p Catalog.blogCatalog.calls)).runOn secondBlog).1 =
      .ok (records', total'))
    (hne : records ≠ records') :
    ((strictBlog.getMany entity (.principal {}) r).runOn firstBlog).1 ≠
      ((strictBlog.getMany entity (.principal {}) r).runOn secondBlog).1 := by
  have htake : strictBlog.pageSize r.limit = .ok 25 := by rw [hlimit]; rfl
  have hnone : optionsOf r.options = .ok (.object []) := by rw [hoptions]; rfl
  have hfirst := getMany_run (e := strictBlog) rfl htake hpath hnone hplan (Prod.ext hread rfl)
  have hsecond := getMany_run (e := strictBlog) rfl htake hpath hnone hplan (Prod.ext hread' rfl)
  rw [hfirst, hsecond]
  intro he
  injection he with he
  injection he with he
  injection he with he
  exact hne he

/-- The plan of a first page that includes some relations, omits a column and is sorted by another. -/
def firstPage (includes : Object) (omitted order : String) : Plan :=
  { includes := if includes.isEmpty then none else some includes, omits := some [(omitted, .bool true)]
    order := some [(order, .text "asc")], take := some 25, skip := some 0 }

def authorsByPassword : ListRequest := { sortBy := .text "password" }

def postsWithFirst : ListRequest :=
  { includes := .object [("query", .text "comments"), ("rule", .object [("comments", .object [("id", .int 1)])])] }

def firstComments : Object :=
  [("comments", .object [("omit", .object [("id", .bool true)]), ("where", .object [("id", .int 1)])])]

def postsWithAuthor : ListRequest := { includes := .text "author" }

def onlyAuthor : Object := [("author", .object [("omit", .object [("password", .bool true)])])]

/-- A filter, an order, a further condition, a relation and the order by the keys each tell the databases apart. -/
theorem secrets_told :
    (∀ entity m column, Catalog.blogCatalog.model? entity = some m → (m.name, column) ∈ blogSecrets →
      (strictBlog.viewpoint (.principal {})).Omits entity column) ∧
    (∀ entity d, (strictBlog.viewpoint (.principal {})).decide .read entity = .ok d → d.filter = []) ∧
    firstBlog.Alike blogSecrets secondBlog ∧
    ((strictBlog.count "User" (.principal {}) (.text "password=secret")).runOn firstBlog).1 ≠
      ((strictBlog.count "User" (.principal {}) (.text "password=secret")).runOn secondBlog).1 ∧
    ((strictBlog.getMany "User" (.principal {}) authorsByPassword).runOn firstBlog).1 ≠
      ((strictBlog.getMany "User" (.principal {}) authorsByPassword).runOn secondBlog).1 ∧
    ((strictBlog.getMany "Post" (.principal {}) postsWithFirst).runOn firstBlog).1 ≠
      ((strictBlog.getMany "Post" (.principal {}) postsWithFirst).runOn secondBlog).1 ∧
    ((strictBlog.getMany "Post" (.principal {}) postsWithAuthor).runOn firstBlog).1 ≠
      ((strictBlog.getMany "Post" (.principal {}) postsWithAuthor).runOn secondBlog).1 ∧
    ((strictBlog.getMany "Comment" (.principal {}) {}).runOn firstBlog).1 ≠
      ((strictBlog.getMany "Comment" (.principal {}) {}).runOn secondBlog).1 := by
  refine ⟨fun _ _ _ => secrets_omitted, fun _ _ => strictBlog_unfiltered, ?_, ?_, ?_, ?_, ?_, ?_⟩
  · exact blogWith_alike (by simp [blogSecrets]) (by simp [blogSecrets]) (by simp [blogSecrets])
  · have hcount : (Catalog.blogCatalog.storage.count "User" [("password", .object [("equals", .text "secret")])]).runOn
        firstBlog = (.ok 1, firstBlog) := by cbv
    have hcount' : (Catalog.blogCatalog.storage.count "User" [("password", .object [("equals", .text "secret")])]).runOn
        secondBlog = (.ok 0, secondBlog) := by cbv
    rw [count_run (e := strictBlog) rfl rfl hcount, count_run (e := strictBlog) rfl rfl hcount']
    simp
  · exact told_apart (p := firstPage [] "password" "password") rfl rfl rfl rfl (by cbv) (by cbv) (by simp)
  · exact told_apart (p := firstPage firstComments "authorId" "id") rfl rfl rfl rfl (by cbv) (by cbv) (by simp)
  · exact told_apart (p := firstPage onlyAuthor "authorId" "id") rfl rfl rfl rfl (by cbv) (by cbv) (by simp)
  · exact told_apart (p := firstPage [] "id" "id") rfl rfl rfl rfl (by cbv) (by cbv) (by simp)

end Engine

end RecordGraph
