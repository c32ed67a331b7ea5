import RecordGraph.Proofs.Operation.Chains
import RecordGraph.Proofs.Operation.Getting
import RecordGraph.Proofs.Operation.Stages
import RecordGraph.Proofs.Relational.Rendering

/-!
# What callers are shown

The records that come back from reading and writing without a field list are screened: at no depth do
they show a column that is omitted for the user, or a related record of an entity that is denied.
-/

namespace RecordGraph

/-- The records of an outcome. -/
def Outcome.shownRecords : Outcome → List Object
  | .value x => x.shownRecords
  | .page p => p.records.flatMap Value.shownRecords
  | .batch _ => []

/-- Options that take nothing back of what is omitted for a user. -/
def Viewpoint.Harmless (v : Viewpoint) (entity : String) (options : Value) : Prop :=
  ∀ o extra, options = .object o → Object.get o "omit" = .object extra →
    ∀ name x, (name, x) ∈ extra → v.Omits entity name → x.isPresent = true

namespace Engine

/-- An operation on an entity, with all that its caller gives, that comes back with records. -/
inductive Request where
  | get (r : GetRequest)
  | getMany (r : ListRequest)
  | create (data : Value)
  | update (id data : Value)
  | upsert (data uniqueKey : Value)
  | delete (id : Value)

namespace Request

def operation : Request → String
  | get _ => "get"
  | getMany _ => "get_many"
  | create _ => "create"
  | update _ _ => "update"
  | upsert _ _ => "upsert"
  | delete _ => "delete"

/-- A request without a field list, whose options take nothing back. -/
def Plain (v : Viewpoint) (entity : String) : Request → Prop
  | get r => Selection.Blank r.fields ∧ v.Harmless entity r.options
  | getMany r => Selection.Blank r.fields
  | _ => True

end Request

variable {σ : Type}

def answer (e : Engine σ) (entity : String) (user : User) : Request → Act σ Outcome
  | .get r => e.get entity user r
  | .getMany r => e.getMany entity user r
  | .create data => e.create entity user data
  | .update id data => e.update entity user id data
  | .upsert data uniqueKey => e.upsert entity user data uniqueKey
  | .delete id => e.delete entity user id

/-- The hooks of an operation change no outcome, give no field list and take nothing back. -/
structure Unaltered (e : Engine σ) (operation entity : String) (user : User) : Prop where
  outcome : ∀ stage o, e.hooks.Keeps stage operation entity fun c => c.outcome = o
  fields : e.hooks.Keeps "before" operation entity fun c => Selection.Blank c.fields
  options : e.hooks.Keeps "before" operation entity fun c => (e.viewpoint user).Harmless entity c.options

variable {e : Engine Database} {c : Catalog} {clock : Clock} {entity : String} {user : User} {includes fields : Value}
  {shape p : Plan} {outcome : Outcome} {db db' : Database}

/-! ## Plans -/

theorem selection_screens (hn : e.schema.Distinct) (hb : Selection.Blank fields)
    (h : e.selection entity user includes fields = .ok shape)
    (hp : p.includes = shape.includes ∧ p.selects = shape.selects ∧ p.omits = shape.omits) :
    p.Screens (e.viewpoint user) entity := by
  obtain ⟨compiled, hcompiled, rfl⟩ := map_ok_iff.mp h
  obtain ⟨hincludes, hselects, homits⟩ := hp
  obtain ⟨htree, hsel, hom⟩ := Selection.blank_screens hn hb hcompiled
  exact Plan.screens_included (hincludes ▸ htree) (hselects.trans hsel) (by rw [homits]; exact hom)

theorem selection_blank (hn : e.schema.Distinct) (hb : Selection.Blank fields)
    (h : e.selection entity user includes fields = .ok shape) : shape.selects = none := by
  obtain ⟨compiled, hcompiled, rfl⟩ := map_ok_iff.mp h
  exact (Selection.blank_screens hn hb hcompiled).2.1

theorem listPlan_screens (hn : e.schema.Distinct) {r : ListRequest} (hb : Selection.Blank r.fields)
    (h : e.listPlan entity user r = .ok p) : p.Screens (e.viewpoint user) entity := by
  simp only [listPlan, bind_ok_iff, pure_ok_iff] at h
  obtain ⟨shape, hshape, _, _, _, _, _, _, _, _, rfl⟩ := h
  exact selection_screens hn hb hshape ⟨rfl, rfl, rfl⟩

theorem blank_null : Selection.Blank .null := by
  intro text h
  cases h
  rfl

theorem writePlan_screens (hn : e.schema.Distinct) (h : e.writePlan entity user = .ok p) :
    p.Screens (e.viewpoint user) entity := selection_screens hn blank_null h ⟨rfl, rfl, rfl⟩

theorem scalarSelection_screens (hs : e.schema.ScalarsApart) {tree : Object}
    (h : e.scalarSelection entity user = .ok tree) :
    ({ selects := some tree } : Plan).Screens (e.viewpoint user) entity := by
  obtain ⟨omission, ho, h⟩ := bind_ok_iff.mp h
  obtain ⟨en, hen, h⟩ := bind_ok_iff.mp h
  obtain rfl := pure_ok_iff.mp h
  refine Plan.screens_scalars (p := {}) ho fun name hname => ?_
  obtain ⟨f, hf, rfl⟩ := List.mem_map.mp hname
  exact (Schema.relation?_of_entity hen f.name).trans (congrArg Except.ok (hs entity en hen f hf))

theorem extra_screens (hn : e.schema.Distinct) (hb : Selection.Blank fields)
    (h : e.selection entity user includes fields = .ok shape) {options : Value} {extra filter : Object}
    (hextra : extraOmission options = .ok extra) (ho : (e.viewpoint user).Harmless entity options) :
    ({ shape with
        filter
        omits := if extra.isEmpty then shape.omits else some (Object.update (shape.omits.getD []) extra) } :
      Plan).Screens (e.viewpoint user) entity := by
  obtain ⟨compiled, hcompiled, rfl⟩ := map_ok_iff.mp h
  obtain ⟨htree, hsel, hom⟩ := Selection.blank_screens hn hb hcompiled
  refine Plan.screens_included htree hsel fun name homits => ?_
  dsimp only
  split
  · exact hom name homits
  · refine ⟨_, rfl, ?_⟩
    by_cases hk : name ∈ Object.keys extra
    · obtain ⟨x, hx, hm⟩ := Object.get?_update_of_mem_keys (o := compiled.omits.getD []) hk
      rw [Object.get, hx]
      obtain ⟨o, rfl⟩ : ∃ o, options = .object o := by
        cases options with
        | object o => exact ⟨o, rfl⟩
        | _ => cases hextra
      have hget : Object.get o "omit" = .object extra := by
        rw [extraOmission] at hextra
        split at hextra
        · rename_i heq
          rw [heq, pure_ok_iff.mp hextra]
        · split at hextra
          · cases hextra
          · cases pure_ok_iff.mp hextra
            cases hk
      exact ho o extra rfl hget name x hm homits
    · rw [Object.get, Object.get?_update_of_not_mem hk]
      obtain ⟨omitted, homitted, hpresent⟩ := hom name homits
      rw [homitted]
      exact hpresent

theorem prepare_screens (hn : e.schema.Distinct) (hs : e.schema.ScalarsApart) {w : Write} {start : Start}
    {before : HookContext} {p : Prepared} (h : e.prepare entity user start before w = .ok p) :
    p.plan.Screens (e.viewpoint user) entity := by
  cases w with
  | update id data =>
      simp only [prepare, bind_ok_iff, pure_ok_iff] at h
      obtain ⟨_, _, _, _, _, _, plan, hplan, rfl⟩ := h
      exact writePlan_screens hn hplan
  | upsert data uniqueKey =>
      simp only [prepare, bind_ok_iff, pure_ok_iff] at h
      obtain ⟨_, _, _, _, _, _, _, _, plan, hplan, rfl⟩ := h
      exact writePlan_screens hn hplan
  | delete id =>
      obtain ⟨condition, _, h⟩ := bind_ok_iff.mp h
      obtain ⟨tree, htree, h⟩ := bind_ok_iff.mp h
      split at h
      · obtain ⟨_, _, h⟩ := bind_ok_iff.mp h
        cases pure_ok_iff.mp h
        exact scalarSelection_screens hs htree
      · cases pure_ok_iff.mp h
        exact scalarSelection_screens hs htree

/-! ## Operations -/

theorem hidden_none {P : Object → Prop} : ∀ o ∈ (Outcome.value .null).shownRecords, P o := nofun

theorem harmless_default {v : Viewpoint} : v.Harmless entity (.object []) := by
  intro o extra ho hget
  cases ho
  cases hget

theorem required_ok {found : Option Object} {record : Object}
    (h : (required entity found : Act Database Object).runOn db = (.ok record, db')) : found = some record := by
  cases found with
  | none => cases h
  | some r => rw [(Act.runOn_pure_ok_iff.mp h).1]

theorem perform_renders (hstore : e.storage = c.storage clock) {filter record : Object} {p : Prepared}
    (h : (e.perform entity filter p).runOn db = (.ok record, db')) : c.Renders entity p.plan record := by
  unfold perform at h
  rw [hstore] at h
  cases hdeed : p.deed with
  | set changes =>
      rw [hdeed] at h
      obtain ⟨found, _, hfound, h⟩ := Act.runOn_bind_ok_iff.mp h
      obtain rfl := required_ok h
      exact Catalog.update_renders (Query.transaction_ok (ask_ok hfound))
  | setOrCreate changes whole =>
      rw [hdeed] at h
      exact Catalog.upsert_renders (Query.transaction_ok (ask_ok h))
  | remove =>
      rw [hdeed] at h
      obtain ⟨found, _, hfound, h⟩ := Act.runOn_bind_ok_iff.mp h
      obtain rfl := required_ok h
      exact Catalog.delete_renders (Query.transaction_ok (ask_ok hfound))

theorem screened_one {record : Object} (h : (e.viewpoint user).Screened entity record) :
    ∀ o ∈ (Outcome.value (.object record)).shownRecords, (e.viewpoint user).Screened entity o := by
  intro o ho
  obtain rfl := List.mem_singleton.mp ho
  exact h

section Operations

variable (hstore : e.storage = c.storage clock) (hd : e.schema.Describes c) (hn : e.schema.Distinct)

include hstore hd hn

theorem create_screened {data : Value} (hu : e.Unaltered "create" entity user)
    (h : (e.create entity user data).runOn db = (.ok outcome, db')) :
    ∀ o ∈ outcome.shownRecords, (e.viewpoint user).Screened entity o := by
  simp only [create, Act.runOn_bind_ok_iff] at h
  obtain ⟨_, _, _, _, _, _, before, _, hbefore, h⟩ := h
  have hnull := (hu.outcome _ (.value .null)).execute rfl rfl hbefore
  split at h
  · obtain ⟨rfl, _⟩ := Act.runOn_pure_ok_iff.mp h
    rw [hnull]
    exact hidden_none
  · simp only [Act.runOn_bind_ok_iff, Act.runOn_liftM_ok_iff, Act.runOn_pure_ok_iff] at h
    obtain ⟨payload, _, _, body, _, _, plan, _, ⟨hplan, _⟩, record, _, hrecord, after, _, hafter, rfl, _⟩ := h
    rw [concluded (hu.outcome _) rfl rfl hafter]
    have hrecord := ask_ok hrecord
    rw [hstore] at hrecord
    exact screened_one ((Catalog.create_renders (Query.transaction_ok hrecord)).screened hd
      (writePlan_screens hn hplan))

theorem write_screened (hs : e.schema.ScalarsApart) {w : Write} (hu : e.Unaltered w.operation entity user)
    (h : (e.write entity user w).runOn db = (.ok outcome, db')) :
    ∀ o ∈ outcome.shownRecords, (e.viewpoint user).Screened entity o := by
  simp only [write_eq, Act.runOn_bind_ok_iff] at h
  obtain ⟨start, _, _, before, _, hbefore, h⟩ := h
  have hnull := (hu.outcome _ (.value .null)).execute rfl rfl hbefore
  split at h
  · obtain ⟨rfl, _⟩ := Act.runOn_pure_ok_iff.mp h
    rw [hnull]
    exact hidden_none
  · simp only [Act.runOn_bind_ok_iff, Act.runOn_liftM_ok_iff] at h
    obtain ⟨p, _, ⟨hp, _⟩, record, _, hrecord, h⟩ := h
    obtain ⟨after, _, hafter, h⟩ := Act.runOn_bind_ok_iff.mp h
    obtain ⟨rfl, _⟩ := Act.runOn_pure_ok_iff.mp h
    rw [concluded (hu.outcome _) rfl rfl hafter]
    exact screened_one ((perform_renders hstore hrecord).screened hd (prepare_screens hn hs hp))

theorem get_screened {r : GetRequest} (hb : Selection.Blank r.fields)
    (ho : (e.viewpoint user).Harmless entity r.options) (hu : e.Unaltered "get" entity user)
    (h : (e.get entity user r).runOn db = (.ok outcome, db')) :
    ∀ o ∈ outcome.shownRecords, (e.viewpoint user).Screened entity o := by
  simp only [get_eq, Act.runOn_bind_ok_iff, Act.runOn_liftM_ok_iff] at h
  obtain ⟨options, _, ⟨hoptions, _⟩, before, _, hbefore, h⟩ := h
  have hgiven : (e.viewpoint user).Harmless entity options := by
    unfold optionsOf at hoptions
    split at hoptions
    · rename_i o hr
      obtain rfl := pure_ok_iff.mp hoptions
      exact hr ▸ ho
    · split at hoptions
      · cases hoptions
      · obtain rfl := pure_ok_iff.mp hoptions
        exact harmless_default
  have hnull := (hu.outcome _ (.value .null)).execute rfl rfl hbefore
  have hblank := hu.fields.execute rfl hb hbefore
  have hharmless := hu.options.execute rfl hgiven hbefore
  split at h
  · obtain ⟨rfl, _⟩ := Act.runOn_pure_ok_iff.mp h
    rw [hnull]
    exact hidden_none
  · simp only [Act.runOn_bind_ok_iff, Act.runOn_liftM_ok_iff, Act.runOn_pure_ok_iff] at h
    obtain ⟨p, _, ⟨hprobes, _⟩, ⟨found, permitted⟩, _, hlookups, result, _, ⟨hverdict, _⟩, after, _, hafter, rfl, _⟩ := h
    simp only [probes, bind_ok_iff, pure_ok_iff] at hprobes
    obtain ⟨condition, _, shape, hshape, extra, hextra, permission, _, keys, _, rfl⟩ := hprobes
    unfold extraFor at hextra
    rw [if_pos (by rw [selection_blank hn hblank hshape]; rfl)] at hextra
    obtain ⟨record, rfl, rfl, _⟩ := verdict_ok hverdict
    obtain ⟨_, hfound, _⟩ := lookUp_ok (ask_ok hlookups)
    rw [hstore] at hfound
    rw [concluded (hu.outcome _) rfl rfl hafter]
    exact screened_one ((Catalog.findUnique_renders (Query.transaction_ok hfound)).screened hd
      (extra_screens hn hblank hshape hextra hharmless))

theorem getMany_screened {r : ListRequest} (hb : Selection.Blank r.fields)
    (hu : e.Unaltered "get_many" entity user)
    (h : (e.getMany entity user r).runOn db = (.ok outcome, db')) :
    ∀ o ∈ outcome.shownRecords, (e.viewpoint user).Screened entity o := by
  simp only [getMany, Act.runOn_bind_ok_iff, Act.runOn_liftM_ok_iff] at h
  obtain ⟨take, _, _, _, _, _, _, _, _, before, _, hbefore, h⟩ := h
  have hnull := (hu.outcome _ (.value .null)).execute rfl rfl hbefore
  have hblank := hu.fields.execute rfl hb hbefore
  split at h
  · obtain ⟨rfl, _⟩ := Act.runOn_pure_ok_iff.mp h
    rw [hnull]
    exact nofun
  · simp only [Act.runOn_bind_ok_iff, Act.runOn_liftM_ok_iff, Act.runOn_pure_ok_iff] at h
    obtain ⟨plan, _, ⟨hplan, _⟩, ⟨records, total⟩, _, hread, after, _, hafter, rfl, _⟩ := h
    rw [concluded (hu.outcome _) rfl rfl hafter]
    have hread := ask_ok hread
    rw [hstore] at hread
    have hread := Query.transaction_ok hread
    simp only [Query.within_null, Act.runOn_bind_ok_iff, Act.runOn_pure_ok_iff] at hread
    obtain ⟨_, _, hrecords, _, _, _, he, _⟩ := hread
    cases he
    intro o ho
    obtain ⟨x, hx, hox⟩ := List.mem_flatMap.mp ho
    obtain ⟨record, rfl, hrenders⟩ := Catalog.findMany_renders hrecords x hx
    obtain rfl := List.mem_singleton.mp hox
    exact hrenders.screened hd (listPlan_screens hn hblank hplan)

end Operations

/-- No request without a field list, whose options take nothing back, comes back with a column that is
omitted for the user or, below the first level, with a record of an entity that is denied. -/
theorem answers_screened (hstore : e.storage = c.storage clock) (hd : e.schema.Describes c) (hn : e.schema.Distinct)
    (hs : e.schema.ScalarsApart) {r : Request} (hp : r.Plain (e.viewpoint user) entity)
    (hu : e.Unaltered r.operation entity user) (h : (e.answer entity user r).runOn db = (.ok outcome, db')) :
    ∀ o ∈ outcome.shownRecords, (e.viewpoint user).Screened entity o := by
  cases r with
  | get r => exact get_screened hstore hd hn hp.1 hp.2 hu h
  | getMany r => exact getMany_screened hstore hd hn hp hu h
  | create data => exact create_screened hstore hd hn hu h
  | update id data => exact write_screened (w := .update id data) hstore hd hn hs hu h
  | upsert data uniqueKey => exact write_screened (w := .upsert data uniqueKey) hstore hd hn hs hu h
  | delete id => exact write_screened (w := .delete id) hstore hd hn hs hu h

/-! Readers of a blog, where passwords are omitted. -/

def readersBlog : Engine Database :=
  { schema := Catalog.blogCatalog.schema, storage := Catalog.blogCatalog.storage, rules := Catalog.readerRules }

theorem readersBlog_unaltered {operation entity : String} {user : User} :
    readersBlog.Unaltered operation entity user :=
  ⟨fun _ _ => Registry.keeps_none rfl, Registry.keeps_none rfl, Registry.keeps_none rfl⟩

theorem blogCatalog_distinct : Catalog.blogCatalog.schema.Distinct :=
  Catalog.schema_distinct (by decide)

/-- A post with the author and the comments, as it comes back to a reader. -/
def postWithAll : Object :=
  [("id", .int 3), ("authorId", .int 7), ("author", .object [("id", .int 7), ("name", .text "Ann")]),
    ("comments", .list [.object [("id", .int 1), ("body", .text "yes"), ("approved", .bool true),
      ("postId", .int 3)]])]

def postRequest : Request := .get { id := .int 3, includes := .text "ALL", fields := .null, options := .null }

def postTree : Object :=
  [("author", .object [("omit", .object [("password", .bool true)])]),
    ("comments", .object [("where", .object [("approved", .bool true)])])]

theorem postRequest_answered : (readersBlog.answer "Post" (.principal {}) postRequest).runOn Catalog.blogDatabase =
    (.ok (.value (.object postWithAll)), Catalog.blogDatabase) := by
  have hid : Key.whereId readersBlog.schema "Post" (.int 3) = .ok [("id", .int 3)] := rfl
  have hperm : (readersBlog.viewpoint (.principal {})).filterFor .read "Post" = .ok [] := rfl
  have hshape : readersBlog.selection "Post" (.principal {}) (.text "ALL") .null =
      .ok { includes := some postTree } := rfl
  have htree : readersBlog.keySelection "Post" = .ok [("id", .bool true)] := rfl
  have hfound : (Catalog.blogCatalog.storage.findUnique "Post"
      (requestPlan { includes := some postTree } [("id", .int 3)] [])).runOn Catalog.blogDatabase =
        (.ok (some postWithAll), Catalog.blogDatabase) := by cbv
  have hprobe : (Catalog.blogCatalog.storage.findUnique "Post"
      { filter := Guard.merge [("id", .int 3)] [], selects := some [("id", .bool true)] }).runOn
        Catalog.blogDatabase = (.ok (some [("id", .int 3)]), Catalog.blogDatabase) := by cbv
  rw [postRequest, answer, get_run rfl rfl hshape extraFor_none hid hperm htree rfl hfound hprobe]
  rfl

/-- The post comes without the author's password. -/
theorem postWithAll_screened :
    readersBlog.storage = Catalog.blogCatalog.storage ∧ readersBlog.schema.Describes Catalog.blogCatalog ∧
    readersBlog.schema.Distinct ∧ readersBlog.schema.ScalarsApart ∧
    postRequest.Plain (readersBlog.viewpoint (.principal {})) "Post" ∧
    readersBlog.Unaltered postRequest.operation "Post" (.principal {}) ∧
    (readersBlog.answer "Post" (.principal {}) postRequest).runOn Catalog.blogDatabase =
      (.ok (.value (.object postWithAll)), Catalog.blogDatabase) ∧
    ∀ o ∈ (Outcome.value (.object postWithAll)).shownRecords,
      (readersBlog.viewpoint (.principal {})).Screened "Post" o := by
  have hd := Catalog.schema_describes Catalog.blogCatalog_wellFormed
  have hs := Catalog.schema_scalarsApart Catalog.blogCatalog_wellFormed
  have hp : postRequest.Plain (readersBlog.viewpoint (.principal {})) "Post" := ⟨blank_null, nofun⟩
  exact ⟨rfl, hd, blogCatalog_distinct, hs, hp, readersBlog_unaltered, postRequest_answered,
    answers_screened rfl hd blogCatalog_distinct hs hp readersBlog_unaltered postRequest_answered⟩

/-- A request for a user whose options set the omitted password to false. -/
def takingBack : Request :=
  .get { id := .int 7, includes := .null, fields := .null
         options := .object [("omit", .object [("password", .bool false)])] }

def userWithPassword : Object := [("id", .int 7), ("name", .text "Ann"), ("password", .text "secret")]

theorem takingBack_answered : (readersBlog.answer "User" (.principal {}) takingBack).runOn Catalog.blogDatabase =
    (.ok (.value (.object userWithPassword)), Catalog.blogDatabase) := by
  have hid : Key.whereId readersBlog.schema "User" (.int 7) = .ok [("id", .int 7)] := rfl
  have hperm : (readersBlog.viewpoint (.principal {})).filterFor .read "User" = .ok [] := rfl
  have hshape : readersBlog.selection "User" (.principal {}) .null .null =
      .ok { omits := some [("password", .bool true)] } := rfl
  have hextra : extraFor { omits := some [("password", .bool true)] }
      (.object [("omit", .object [("password", .bool false)])]) = .ok [("password", .bool false)] := rfl
  have htree : readersBlog.keySelection "User" = .ok [("id", .bool true)] := rfl
  have hfound : (Catalog.blogCatalog.storage.findUnique "User"
      (requestPlan { omits := some [("password", .bool true)] } [("id", .int 7)] [("password", .bool false)])).runOn
        Catalog.blogDatabase = (.ok (some userWithPassword), Catalog.blogDatabase) := by cbv
  have hprobe : (Catalog.blogCatalog.storage.findUnique "User"
      { filter := Guard.merge [("id", .int 7)] [], selects := some [("id", .bool true)] }).runOn
        Catalog.blogDatabase = (.ok (some [("id", .int 7)]), Catalog.blogDatabase) := by cbv
  rw [takingBack, answer, get_run rfl rfl hshape hextra hid hperm htree rfl hfound hprobe]
  rfl

/-- It comes back with the password, although the request has no field list and no hook changes it. -/
theorem takingBack_unscreened :
    readersBlog.storage = Catalog.blogCatalog.storage ∧ readersBlog.schema.Describes Catalog.blogCatalog ∧
    readersBlog.schema.Distinct ∧ readersBlog.schema.ScalarsApart ∧
    readersBlog.Unaltered takingBack.operation "User" (.principal {}) ∧
    (readersBlog.answer "User" (.principal {}) takingBack).runOn Catalog.blogDatabase =
      (.ok (.value (.object userWithPassword)), Catalog.blogDatabase) ∧
    ¬ ∀ o ∈ (Outcome.value (.object userWithPassword)).shownRecords,
      (readersBlog.viewpoint (.principal {})).Screened "User" o := by
  refine ⟨rfl, Catalog.schema_describes Catalog.blogCatalog_wellFormed, blogCatalog_distinct,
    Catalog.schema_scalarsApart Catalog.blogCatalog_wellFormed, readersBlog_unaltered, takingBack_answered,
    fun hall => ?_⟩
  obtain ⟨columns, _, _⟩ := hall userWithPassword (List.mem_singleton.mpr rfl)
  exact columns "password" (by decide) rfl ⟨["password"], rfl, List.mem_singleton.mpr rfl⟩

end Engine

end RecordGraph
