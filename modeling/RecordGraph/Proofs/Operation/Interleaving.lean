import RecordGraph.Proofs.Operation.Chains
import RecordGraph.Proofs.Operation.Getting

/-!
# Getting a record while others write

The two look-ups of a request run in sessions of their own. Each reads one state of the database, in either order, and
any commits of others may come before, between and after them. What a request gets is then the content of one state,
and that the user may read the record is true in a state that need not be the same.
-/

namespace RecordGraph

/-! ## The course of a database -/

/-- The state of a database when a request arrives, and the commits of others until it is answered. -/
structure Course where
  start : Database
  commits : List (Database → Database)

namespace Course

variable (r : Course)

def state (n : Nat) : Database := (r.commits.take n).foldl (fun db commit => commit db) r.start

/-- The state at the first of some moments, which are numbers of commits. -/
def now (moments : List Nat) : Database := r.state (moments.headD 0)

def read {α : Type} (act : Act Database α) : Act (List Nat) α := ExceptT.mk fun moments =>
  ((act.runOn (r.now moments)).1, moments.tail)

theorem runOn_read {r : Course} {α : Type} {act : Act Database α} {moments : List Nat} {db after : Database}
    {out : Except Failure α} (hnow : r.now moments = db) (h : act.runOn db = (out, after)) :
    (r.read act).runOn moments = (out, moments.tail) := by
  subst hnow
  exact congrArg (fun run => (run.1, moments.tail)) h

/-- Serves reads, each at the next moment, and nothing else. -/
def storage (c : Catalog) : Storage (List Nat) where
  findMany entity plan := r.read (c.storage.findMany entity plan)
  findUnique entity plan := r.read (c.storage.findUnique entity plan)
  count entity filter := r.read (c.storage.count entity filter)
  create _ _ _ := throw .illFormed
  update _ _ _ _ := throw .illFormed
  upsert _ _ _ _ _ := throw .illFormed
  delete _ _ _ := throw .illFormed
  createMany _ _ := throw .illFormed
  inTransaction _ _ := throw .illFormed

end Course

/-- A row that answers to a plan, with the record that it shows. -/
structure Catalog.Finds (c : Catalog) (m : Model) (db : Database) (p : Plan) (row : Row) (record : Object) : Prop where
  stored : row ∈ db.rows m
  answers : c.Satisfies m db row (.object p.filter)
  shows : c.record db p.levels m p.loads p.shape row = .ok record

/-- What two look-ups saw: a row with the content, and a row of the same key that satisfies a filter. -/
structure Catalog.Saw (c : Catalog) (m : Model) (first last : Database) (p : Engine.Probes)
    (permission record : Object) (row other : Row) : Prop where
  content : c.Finds m first p.plan row record
  permitted : c.Satisfies m last other (.object permission)
  agrees : ∃ shown, c.Finds m last p.probe other shown ∧ Key.agree m.keys shown record = true

namespace Engine

variable {σ : Type}

def alone (e : Engine σ) (c : Catalog) : Engine Database :=
  { schema := e.schema, storage := c.storage, rules := e.rules, settings := e.settings }

/-- An engine whose look-ups read the states of a course, each at a moment of its own. -/
structure Shares (e : Engine (List Nat)) (r : Course) (c : Catalog) (entity : String) (m : Model) (en : Entity) :
    Prop where
  reads : ∀ plan, e.storage.findUnique entity plan = r.read (c.storage.findUnique entity plan)
  serves : (e.alone c).Serves c entity m en

/-- A request from one state that comes to look for its record in another, which the hooks before it left. -/
structure Looks (e : Engine σ) (entity : String) (user : User) (request : GetRequest) (s : σ) (before : HookContext)
    (p : Probes) (t : σ) : Prop where
  hooked : ∃ options, optionsOf request.options = .ok options ∧
    (e.runHooks "before" "get" entity user fun c =>
      { c with id := request.id, includes := request.includes, fields := request.fields, options }).runOn s =
        (.ok before, t)
  continued : before.abort.isPresent = false
  probed : e.probes entity user request before = .ok p

section Looking

variable {e : Engine σ} {entity : String} {user : User} {request : GetRequest} {s t u : σ} {before : HookContext}
  {p : Probes} {outcome : Outcome}

/-- What a request gets is the record that its first look-up found. -/
theorem Looks.got (hl : e.Looks entity user request s before p t)
    (hk : ∀ o, e.hooks.Keeps "after" "get" entity fun c => c.outcome = o)
    (h : (e.get entity user request).runOn s = (.ok outcome, u)) : ∃ record shown between last,
      outcome = .value (.object record) ∧
      (e.storage.findUnique entity p.plan).runOn t = (.ok (some record), between) ∧
      (e.storage.findUnique entity p.probe).runOn between = (.ok (some shown), last) ∧
      Key.agree p.keys shown record = true := by
  obtain ⟨options, hoptions, hhooked⟩ := hl.hooked
  rw [get_eq, hoptions, Act.runOn_bind_of Act.runOn_liftM, Act.runOn_bind_of hhooked, hl.continued, hl.probed] at h
  simp only [Bool.false_eq_true, ↓reduceIte, Act.runOn_bind_ok_iff, Act.runOn_liftM_ok_iff, Act.runOn_pure_ok_iff] at h
  obtain ⟨_, _, ⟨⟨⟩, rfl⟩, ⟨found, permitted⟩, last, hlookups, result, _, ⟨hverdict, _⟩, after, _, hafter, rfl, _⟩ := h
  obtain ⟨between, hfound, hprobe⟩ := lookUp_ok (ask_ok hlookups)
  obtain ⟨record, rfl, rfl, hagree⟩ := verdict_ok hverdict
  cases permitted with
  | none => cases hagree
  | some shown => exact ⟨record, shown, between, last, concluded hk rfl rfl hafter, hfound, hprobe, hagree⟩

end Looking

section Sharing

variable {e : Engine (List Nat)} {r : Course} {c : Catalog} {entity : String} {m : Model} {en : Entity} {user : User}
  {request : GetRequest} {before : HookContext} {p : Probes} {outcome : Outcome} {moments left rest : List Nat}

theorem Shares.finds (h : e.Shares r c entity m en) {plan : Plan} {record : Object} (hp : plan.order = none)
    (hfound : (e.storage.findUnique entity plan).runOn moments = (.ok (some record), rest)) :
    rest = moments.tail ∧ ∃ row, c.Finds m (r.now moments) plan row record := by
  rw [h.reads] at hfound
  obtain ⟨hfound, hrest⟩ := Prod.mk.inj hfound
  have hrun : (c.storage.findUnique entity plan).runOn (r.now moments) =
      (.ok (some record), ((c.storage.findUnique entity plan).runOn (r.now moments)).2) := Prod.ext hfound rfl
  refine ⟨hrest.symm, ?_⟩
  rcases Catalog.findUnique_cases h.serves.model (Query.transaction_ok hrun) hp with
    ⟨hnone, _⟩ | ⟨row, hrow, hsat, shown, he, hrecord⟩
  · cases hnone
  · cases he
    exact ⟨row, hrow, hsat, hrecord⟩

/-- The content that a request gets is that of a row in the state that its first look-up reads, and a row of the
same key satisfies, in the state that the second reads, what the user may read. In one state they are one row. -/
theorem got_between_commits (h : e.Shares r c entity m en) (hr : e.rules.Proper)
    (hk : ∀ o, e.hooks.Keeps "after" "get" entity fun c => c.outcome = o)
    (hl : e.Looks entity user request moments before p left)
    (hget : (e.get entity user request).runOn moments = (.ok outcome, rest)) :
    ∃ record permission row other, outcome = .value (.object record) ∧
      (e.viewpoint user).filterFor .read entity = .ok permission ∧
      c.Saw m (r.now left) (r.now left.tail) p permission record row other ∧
      (Guard.Alike c m p.plan.filter permission →
        c.Satisfies m (r.now left.tail) other (.object p.plan.filter) ∧
        (Key.Whole m (given request.id before.id) → (r.now left).Keyed m → r.now left.tail = r.now left →
          other = row)) := by
  obtain ⟨record, shown, between, last, rfl, hfound, hprobe, hagree⟩ := hl.got hk hget
  have hprobed := hl.probed
  simp only [probes, bind_ok_iff, pure_ok_iff] at hprobed
  obtain ⟨condition, hcond, shape, hshape, extra, _, permission, hperm, keys, hkeys, rfl⟩ := hprobed
  obtain ⟨_, _, rfl⟩ := map_ok_iff.mp hshape
  obtain ⟨rfl, row, hrow⟩ := h.finds rfl hfound
  obtain ⟨rfl, other, hother⟩ := h.finds rfl hprobe
  obtain rfl : m.keys = keys := Except.ok.inj (h.serves.schema_keys.symm.trans hkeys)
  have hnodup := Rules.filterFor_nodup hr hperm
  have hpermitted := Guard.merge_confines hnodup hother.answers
  refine ⟨record, permission, row, other, rfl, hperm, ⟨hrow, hpermitted, shown, hother, hagree⟩, fun halike => ?_⟩
  obtain ⟨key, v, rfl⟩ := Key.whereId_single hcond
  have hfilter : (Object.keys [(key, v)]).Nodup := List.nodup_singleton key
  have hsame := ((Guard.merge_satisfies_iff hfilter hnodup halike).mp hother.answers).1
  refine ⟨hsame, fun hwhole hkeyed hstate => ?_⟩
  obtain ⟨_, hcondition, hv⟩ := Key.whereId_ok h.serves.entity h.serves.keys h.serves.keyed hwhole hcond
  cases hcondition
  rw [hstate] at hsame hother
  exact Catalog.key_unique hkeyed h.serves.addressed hv hother.stored hrow.stored hsame hrow.answers

end Sharing

/-! A comment that is not approved is rewritten and approved while a reader asks for it. -/

def rewriting (db : Database) : Database :=
  db.setRows "Comment" ((db.rowsOf "Comment").map fun row =>
    if row.get "id" = .integer 2 then (row.set "body" (.text "edited")).set "approved" (.integer 1) else row)

def rewritten : Course := ⟨Catalog.blogDatabase, [rewriting]⟩

def sharedBlog : Engine (List Nat) :=
  { schema := Catalog.blogCatalog.schema, storage := rewritten.storage Catalog.blogCatalog
    rules := .reading "Comment" (.object [("approved", .bool true)]) }

def secondComment : Object :=
  [("id", .int 2), ("body", .text "no"), ("approved", .bool false), ("postId", .int 3)]

def editedDatabase : Database := rewriting Catalog.blogDatabase

theorem secondComment_got : (sharedBlog.get "Comment" (.principal {}) { id := .int 2 }).runOn [0, 1] =
    (.ok (.value (.object secondComment)), []) := by
  have hid : Key.whereId sharedBlog.schema "Comment" (.int 2) = .ok [("id", .int 2)] := rfl
  have hperm : (sharedBlog.viewpoint (.principal {})).filterFor .read "Comment" = .ok [("approved", .bool true)] := rfl
  have hshape : sharedBlog.selection "Comment" (.principal {}) .null .null = .ok {} := rfl
  have htree : sharedBlog.keySelection "Comment" = .ok [("id", .bool true)] := rfl
  have hfound : (Catalog.blogCatalog.storage.findUnique "Comment" (requestPlan {} [("id", .int 2)] [])).runOn
      Catalog.blogDatabase = (.ok (some secondComment), Catalog.blogDatabase) := by cbv
  have hprobe : (Catalog.blogCatalog.storage.findUnique "Comment"
      { filter := Guard.merge [("id", .int 2)] [("approved", .bool true)], selects := some [("id", .bool true)] }).runOn
        editedDatabase = (.ok (some [("id", .int 2)]), editedDatabase) := by cbv
  have hfirst : rewritten.now [0, 1] = Catalog.blogDatabase := rfl
  have hlast : rewritten.now [1] = editedDatabase := rfl
  have hrun : (sharedBlog.get "Comment" (.principal {}) { id := .int 2 }).runOn [0, 1] =
      (verdict "Comment" ["id"] (some secondComment) (some [("id", .int 2)]), []) :=
    get_run rfl rfl hshape extraFor_none hid hperm htree rfl (Course.runOn_read hfirst hfound)
      (Course.runOn_read hlast hprobe)
  rw [hrun]
  rfl

theorem rewritten_state (n : Nat) : rewritten.state n = Catalog.blogDatabase ∨ rewritten.state n = editedDatabase := by
  cases n with
  | zero => exact .inl rfl
  | succ n => exact .inr (by rw [Course.state, rewritten, List.take_succ_cons, List.take_nil]; rfl)

/-- The reader gets the content from before the comment was approved. In no state is it that of an approved comment. -/
theorem secondComment_unapproved :
    (sharedBlog.get "Comment" (.principal {}) { id := .int 2 }).runOn [0, 1] =
      (.ok (.value (.object secondComment)), []) ∧
    (sharedBlog.viewpoint (.principal {})).filterFor .read "Comment" = .ok [("approved", .bool true)] ∧
    ¬ ∃ n, ∃ row ∈ (rewritten.state n).rows commentModel, row.values commentModel = secondComment ∧
      Catalog.blogCatalog.Satisfies commentModel (rewritten.state n) row (.object [("approved", .bool true)]) := by
  refine ⟨secondComment_got, rfl, ?_⟩
  rintro ⟨n, row, hrow, hvalues, cond, hcond, hsel⟩
  cases hcond
  have hbody : Object.get (row.values commentModel) "body" = .text "no" := by rw [hvalues]; rfl
  have hrows := Database.mem_rows.mp hrow
  rcases rewritten_state n with hstate | hstate <;> rw [hstate] at hrows hsel
  · rcases hrows with _ | ⟨_, _ | ⟨_, hnone⟩⟩
    · exact absurd (Value.text.inj hbody) (by decide)
    · cases hsel
    · cases hnone
  · rcases hrows with _ | ⟨_, _ | ⟨_, hnone⟩⟩
    · exact absurd (Value.text.inj hbody) (by decide)
    · exact absurd (Value.text.inj hbody) (by decide)
    · cases hnone

theorem sharedBlog_shares : sharedBlog.Shares rewritten Catalog.blogCatalog "Comment" commentModel
    (Catalog.blogCatalog.entity "Comment" commentModel) :=
  ⟨fun _ => rfl, blogEngine_serves⟩

theorem secondComment_between :
    sharedBlog.Shares rewritten Catalog.blogCatalog "Comment" commentModel
      (Catalog.blogCatalog.entity "Comment" commentModel) ∧
    sharedBlog.rules.Proper ∧
    (sharedBlog.get "Comment" (.principal {}) { id := .int 2 }).runOn [0, 1] =
      (.ok (.value (.object secondComment)), []) ∧
    ∃ before p, sharedBlog.Looks "Comment" (.principal {}) { id := .int 2 } [0, 1] before p [0, 1] ∧
    ∃ record permission row other, Outcome.value (.object secondComment) = .value (.object record) ∧
      (sharedBlog.viewpoint (.principal {})).filterFor .read "Comment" = .ok permission ∧
      Catalog.blogCatalog.Saw commentModel Catalog.blogDatabase editedDatabase p permission record row other := by
  have hproper : sharedBlog.rules.Proper :=
    Rules.reading_proper (by simp [Value.Proper, Value.ProperMembers, Object.keys])
  have hlooks : sharedBlog.Looks "Comment" (.principal {}) { id := .int 2 } [0, 1] _ _ [0, 1] :=
    ⟨⟨.object [], rfl, runHooks_none rfl⟩, rfl, rfl⟩
  refine ⟨sharedBlog_shares, hproper, secondComment_got, _, _, hlooks, ?_⟩
  obtain ⟨record, permission, row, other, he, hperm, hsaw, _⟩ := got_between_commits sharedBlog_shares hproper
    (fun _ => Registry.keeps_none rfl) hlooks secondComment_got
  exact ⟨record, permission, row, other, he, hperm, hsaw⟩

end Engine

end RecordGraph
