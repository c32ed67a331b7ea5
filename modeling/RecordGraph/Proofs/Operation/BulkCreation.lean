import RecordGraph.Proofs.Mutation.Acceptance
import RecordGraph.Proofs.Operation.Classification
import RecordGraph.Proofs.Relational.Building

/-!
# Rows that are created in one statement

Where relations are not followed, new rows are written as they were given, without the fields that the user
does not see. Their relations are not checked; but for them, every row that is created would have been
accepted by itself.
-/

namespace RecordGraph

/-- Rows are paired with what is created of them. -/
theorem created_pairs {R : Object → Fate → Prop} {payloads : List Object} {fates : List Fate}
    (h : List.Forall₂ R payloads fates) :
    ∃ pairs : List (Object × Object), (pairs.map Prod.fst).Sublist payloads ∧
      pairs.map Prod.snd = fates.filterMap Fate.create? ∧ ∀ p ∈ pairs, R p.1 (.create p.2) := by
  induction h with
  | nil => exact ⟨[], .slnil, rfl, nofun⟩
  | @cons row fate payloads fates hrow _ ih =>
      obtain ⟨pairs, hrows, hbodies, hall⟩ := ih
      cases fate with
      | create body =>
          refine ⟨(row, body) :: pairs, hrows.cons_cons row, ?_, List.forall_mem_cons.mpr ⟨hrow, hall⟩⟩
          rw [List.map_cons, hbodies]
          rfl
      | update _ _ | refuse _ => exact ⟨pairs, hrows.cons row, hbodies, hall⟩

namespace Engine

variable {c : Catalog} {e : Engine Database} {tx : Access Database} {entity : String} {user : User}
  {permission row body : Object} {key : Key.UniqueKey} {db db' : Database} {existing : List (List String)}

/-- A row that is created without following its relations is only stripped. -/
theorem fateOf_stripped (h : e.fateOf entity user key false existing row = .ok (.create body)) :
    (e.viewpoint user).canCreate entity (.object row) = .ok true ∧ (e.writer user).strip entity row = .ok body := by
  unfold fateOf at h
  split at h
  · obtain ⟨_, _, h⟩ := bind_ok_iff.mp h
    cases h
  · obtain ⟨allowed, hallowed, h⟩ := bind_ok_iff.mp h
    cases allowed with
    | false => cases h
    | true =>
        obtain ⟨stripped, hstripped, h⟩ := bind_ok_iff.mp h
        cases h
        exact ⟨hallowed, hstripped⟩

/-- A row that is written without a look at its relations, and what is written of it. By itself it is refused
only if one of the members is by which it is related to others; if it has none, it would be written just so. -/
structure Acceptable (e : Engine Database) (entity : String) (user : User) (en : Entity) (row body : Object) :
    Prop where
  allowed : (e.viewpoint user).canCreate entity (.object row) = .ok true
  stripped : (e.writer user).strip entity row = .ok body
  accepted : 0 ≤ e.settings.maxNestingDepth →
    (∀ kv ∈ body, en.Relates kv → ∃ out, (e.writer user).create entity [kv] = .ok out) →
    ∃ whole, (e.writer user).create entity row = .ok whole
  plain : (∀ kv ∈ body, ¬ en.Relates kv) →
    ∃ whole, (e.writer user).create entity row = .ok whole ∧ ∀ name, whole.get name = body.get name

theorem acceptable_of_members {m : Model} (hs : e.schema.Covers c) (hm : c.model? entity = some m)
    (hfate : e.fateOf entity user key false existing row = .ok (.create body)) (hhas : ∀ kv ∈ body, m.Has kv.1) :
    ∃ en, e.schema.entity entity = .ok en ∧ e.Acceptable entity user en row body := by
  obtain ⟨en, hen, hknown⟩ := hs.known hm
  obtain ⟨hallowed, hstripped⟩ := fateOf_stripped hfate
  have hknows : ∀ kv ∈ body, en.Knows kv.1 := fun kv hkv => hknown _ (hhas kv hkv)
  refine ⟨en, hen, hallowed, hstripped, fun hdepth hrelating => ?_, fun hplain => ?_⟩
  · exact Writer.create_accepted hen hdepth (hs.apart _ _ hen) hstripped hknows hrelating
  · exact Writer.create_plain hen hstripped hknows hplain

/-- The statement for all new rows writes some of them, and of these only members that are known. -/
theorem created_together {fates : List Fate} {payloads : List Object} {n : Int} (htx : c.Serves tx)
    (hs : e.schema.Covers c)
    (hsorted : List.Forall₂ (fun row fate => e.fateOf entity user key false existing row = .ok fate) payloads fates)
    (hmany : (tx.createMany entity (fates.filterMap Fate.create?)).runOn db = (.ok n, db')) :
    ∃ made : List (Object × Object), (made.map Prod.fst).Sublist payloads ∧ n = made.length ∧
      (c.createMany entity (made.map Prod.snd) false).runOn db = (.ok n, db') ∧
      ∀ row body, (row, body) ∈ made →
        ∃ en, e.schema.entity entity = .ok en ∧ e.Acceptable entity user en row body := by
  obtain ⟨kept, hkept, hn, hcreate⟩ := Catalog.createMany_counted (htx.createMany_ok hmany)
  obtain ⟨pairs, hrows, hbodies, hall⟩ := created_pairs hsorted
  rw [← hbodies] at hkept
  obtain ⟨made, hmade, rfl⟩ := List.sublist_map_iff.mp hkept
  obtain ⟨m, _, hlift, _⟩ := Act.runOn_bind_ok_iff.mp hcreate
  have hm := Catalog.model_ok_iff.mp (Act.runOn_liftM_ok_iff.mp hlift).1
  refine ⟨made, (hmade.map Prod.fst).trans hrows, by rw [hn, List.length_map], hcreate, fun row body hin => ?_⟩
  have hhas := Catalog.createMany_members hm hcreate body (List.mem_map.mpr ⟨_, hin, rfl⟩)
  exact acceptable_of_members hs hm (hall _ (hmade.subset hin)) hhas

/-- Rows that are created in one statement are rows that the user may create, written without the fields that
the user does not see, and but for their relations each would have been accepted by itself. -/
theorem upsertRows_grants {rows : List Value} {batch : Batch} (htx : c.Serves tx) (hs : e.schema.Covers c)
    (hrun : (e.upsertRows tx entity user permission key false rows).runOn db = (.ok batch, db')) :
    ∃ (payloads : List Object) (made : List (Object × Object)), rows.mapM payloadOf = .ok payloads ∧
      (made.map Prod.fst).Sublist payloads ∧ batch.created = made.length ∧
      (made = [] ∨ ∃ mid, (c.createMany entity (made.map Prod.snd) false).runOn db = (.ok batch.created, mid)) ∧
      ∀ row body, (row, body) ∈ made →
        ∃ en, e.schema.entity entity = .ok en ∧ e.Acceptable entity user en row body := by
  obtain ⟨payloads, existing, looked, fates, deals, hpayloads, h⟩ := upsertRows_ok hrun
  obtain rfl := (existingKeys_still fun _ => htx.findMany_still).run h.found
  obtain ⟨news, changes, rfl, hnews, hchanges⟩ := h.parts
  have hcreated : batch.created = (news.map Deal.created).sum := by
    rw [h.account]
    simp only [account, Batch.finalize, List.map_append, List.sum_append, updateCalls_created hchanges]
    omega
  have hidle (row body : Object) (hin : (row, body) ∈ ([] : List (Object × Object))) :
      ∃ en, e.schema.entity entity = .ok en ∧ e.Acceptable entity user en row body := absurd hin List.not_mem_nil
  rcases createCalls_together hnews with ⟨_, rfl⟩ | ⟨f | n, rfl⟩
  · exact ⟨payloads, [], hpayloads, List.nil_sublist _, hcreated.trans rfl, .inl rfl, hidle⟩
  · exact ⟨payloads, [], hpayloads, List.nil_sublist _, hcreated.trans rfl, .inl rfl, hidle⟩
  · have hdealt : Dealt tx entity _ (.createMany (fates.filterMap Fate.create?) (.ok n) :: changes) db' := h.dealt
    cases hdealt with
    | cons hmany _ =>
        obtain ⟨made, hrows, hn, hcreate, hall⟩ := created_together htx hs h.sorted hmany
        have hcount : batch.created = n := by simpa [Deal.created] using hcreated
        rw [← hcount] at hn hcreate
        exact ⟨payloads, made, hpayloads, hrows, hn, .inr ⟨_, hcreate⟩, hall⟩

/-! Posts that are brought to a blog, of whose users not all may be read: one has no author, and one has. -/

def readingBlog (answer : Value) : Engine Database :=
  { schema := Catalog.blogCatalog.schema, storage := Catalog.blogCatalog.storage, rules := .reading "User" answer }

def loosePost : Object := [("id", .int 4), ("authorId", .null)]

def authoredPost : Object := [("id", .int 5), ("authorId", .int 7)]

def bulkBatch : Batch := { created := 2, totalSuccess := 2 }

def bulkRequest : BatchRequest := { rows := [.object loosePost, .object authoredPost] }

def bulkDatabase : Database := { tables := [
  ("User", [[("id", .integer 7), ("name", .text "Ann"), ("password", .text "secret")]]),
  ("Comment", [[("id", .integer 1), ("body", .text "yes"), ("approved", .integer 1), ("postId", .integer 3)],
    [("id", .integer 2), ("body", .text "no"), ("approved", .integer 0), ("postId", .integer 3)]]),
  ("Post", [[("id", .integer 3), ("authorId", .integer 7)], [("id", .integer 4), ("authorId", .null)],
    [("id", .integer 5), ("authorId", .integer 7)]])] }

theorem bulkPosts_worked (answer : Value) :
    ((readingBlog answer).upsertRows Catalog.blogCatalog.calls "Post" (.principal {}) [] (.single "id") false
      bulkRequest.rows).runOn Catalog.blogDatabase = (.ok bulkBatch, bulkDatabase) := by
  have hfound : (existingKeys Catalog.blogCatalog.calls "Post" (.single "id") [loosePost, authoredPost]).runOn
      Catalog.blogDatabase = (.ok [], Catalog.blogDatabase) := by cbv
  have hsorted : [loosePost, authoredPost].foldlM
      ((readingBlog answer).sortRow "Post" (.principal {}) (.single "id") false []) ({} : Sorted) =
        .ok { creates := [loosePost, authoredPost] } := rfl
  have hmany : (Catalog.blogCatalog.calls.createMany "Post" [loosePost, authoredPost]).runOn Catalog.blogDatabase =
      (.ok 2, bulkDatabase) := by cbv
  refine (Act.runOn_bind_of hfound).trans ?_
  refine (Act.runOn_bind_of (congrArg (·, Catalog.blogDatabase) hsorted)).trans ?_
  exact (Act.runOn_bind_of (collect_done hmany)).trans rfl

/-- The post without an author would have been written by itself just so. -/
theorem loosePost_granted :
    Catalog.blogCatalog.Serves Catalog.blogCatalog.calls ∧
    (readingBlog (.bool false)).schema.Covers Catalog.blogCatalog ∧
    ((readingBlog (.bool false)).upsertRows Catalog.blogCatalog.calls "Post" (.principal {}) [] (.single "id") false
      bulkRequest.rows).runOn Catalog.blogDatabase = (.ok bulkBatch, bulkDatabase) ∧
    ∃ made : List (Object × Object), made.map Prod.fst = [loosePost, authoredPost] ∧
      ∃ body whole, (loosePost, body) ∈ made ∧
        ((readingBlog (.bool false)).writer (.principal {})).create "Post" loosePost = .ok whole ∧
        ∀ name, whole.get name = body.get name := by
  have hs : (readingBlog (.bool false)).schema.Covers Catalog.blogCatalog :=
    Catalog.schema_covers Catalog.blogCatalog_wellFormed
  have hrun := bulkPosts_worked (.bool false)
  obtain ⟨payloads, made, hpayloads, hrows, hcount, _, hall⟩ := upsertRows_grants (.inl rfl) hs hrun
  cases hpayloads
  have hlength : made.length = 2 := Int.ofNat_inj.mp hcount.symm
  have hmade : made.map Prod.fst = [loosePost, authoredPost] :=
    hrows.eq_of_length (by rw [List.length_map, hlength]; rfl)
  have hin : loosePost ∈ made.map Prod.fst := by rw [hmade]; exact List.mem_cons_self
  obtain ⟨⟨_, body⟩, hbody, rfl⟩ := List.mem_map.mp hin
  obtain ⟨en, hen, hacceptable⟩ := hall _ _ hbody
  have hplain : ∀ kv ∈ loosePost, ¬ en.Relates kv := by
    intro kv hkv
    cases hen
    rcases List.mem_pair.mp hkv with rfl | rfl
    · exact fun h => nomatch h.1
    · exact Entity.not_relates_null
  have hsame : body = loosePost := Except.ok.inj (hacceptable.stripped.symm.trans rfl)
  obtain ⟨whole, hwhole, hget⟩ := hacceptable.plain (hsame ▸ hplain)
  exact ⟨.inl rfl, hs, hrun, made, hmade, body, whole, hbody, hwhole, hget⟩

def readyBulk : ReadyBatch := { permission := [], key := .single "id", rows := bulkRequest.rows }

def untoldBulk : HookContext :=
  bulkRequest.context (.text "id")
    { entity := "Post", operation := "upsert_many", stage := "before", user := some (.principal {}) }

theorem bulkPosts_reach (answer : Value) : (readingBlog answer).BatchReaches "Post" (.principal {}) bulkRequest
    Catalog.blogDatabase (.text "id") untoldBulk readyBulk Catalog.blogDatabase where
  some_rows := rfl
  permitted := rfl
  keyed := rfl
  hooked := rfl
  continued := rfl
  told := rfl
  given := rfl

theorem bulkPosts_created (answer : Value) :
    ((readingBlog answer).upsertMany "Post" (.principal {}) bulkRequest).runOn Catalog.blogDatabase =
      (.ok (.batch bulkBatch), bulkDatabase) := by
  have hcut : Clock.patient.cut? (.ofInt 30) Catalog.blogDatabase = none := rfl
  have hperform : ((readingBlog answer).performBatch "Post" (.principal {}) bulkRequest readyBulk).runOn
      Catalog.blogDatabase = (.ok bulkBatch, bulkDatabase) :=
    Catalog.inTransaction_done rfl hcut (bulkPosts_worked answer)
  exact (bulkPosts_reach answer).run.trans (Act.runOn_bind_of (ask_of hperform))

/-- The post with an author is linked to Ann, whoever may be read. By itself it is refused if nobody may be
read; if only Bob may be read it is accepted, but then no user is found that it could be connected to. -/
theorem authoredPost_unchecked :
    (((readingBlog (.bool false)).upsertMany "Post" (.principal {}) bulkRequest).runOn Catalog.blogDatabase =
        (.ok (.batch bulkBatch), bulkDatabase) ∧
      ((readingBlog (.bool false)).writer (.principal {})).create "Post" authoredPost =
        .error (.access "no_permission" "User")) ∧
    (((readingBlog (.object [("name", .text "Bob")])).upsertMany "Post" (.principal {}) bulkRequest).runOn
        Catalog.blogDatabase = (.ok (.batch bulkBatch), bulkDatabase) ∧
      ((readingBlog (.object [("name", .text "Bob")])).writer (.principal {})).create "Post" authoredPost =
        .ok [("id", .int 5),
          ("author", .object [("connect", .object [("id", .int 7), ("name", .text "Bob")])])] ∧
      (Catalog.blogCatalog.findMany "User" { filter := [("id", .int 7), ("name", .text "Bob")] }).runOn bulkDatabase =
        (.ok [], bulkDatabase)) := by
  have hnobody : (Catalog.blogCatalog.findMany "User" { filter := [("id", .int 7), ("name", .text "Bob")] }).runOn
      bulkDatabase = (.ok [], bulkDatabase) := by cbv
  exact ⟨⟨bulkPosts_created _, rfl⟩, bulkPosts_created _, rfl, hnobody⟩

end Engine

end RecordGraph
