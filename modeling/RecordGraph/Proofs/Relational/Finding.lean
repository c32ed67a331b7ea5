import Mathlib
import RecordGraph.Proofs.Relational.Disclosure

/-!
# Records that are found

Every record that is found is one of a row of the model, in the shape of the plan. If the plan was
made for a field list that is covered, all of them are discreet.
-/

namespace RecordGraph

namespace Query

variable {α : Type} {act : Query α} {entity : Option String} {a : α} {db db' : Database}

/-- A transaction that succeeds has done what its work does. -/
theorem transaction_ok (h : (transaction entity act).runOn db = (.ok a, db')) :
    act.runOn db = (.ok a, db') := by
  simp only [transaction, faulting, undoing, Act.runOn_tryCatch, Act.runOn_bind, Act.runOn_get] at h
  rcases hrun : act.runOn db with ⟨failure | a', s⟩ <;> rw [hrun] at h
  · cases failure <;> cases h
  · exact h

end Query

namespace Sorting

theorem lookup_join {db : Database} {j : Join} {joined : List Joined} {r : Joined}
    (h : r ∈ join db joined j) : ∃ r' ∈ joined, ∃ more, r = r' ++ more := by
  obtain ⟨r', hr', h⟩ := List.mem_flatMap.mp h
  refine ⟨r', hr', ?_⟩
  dsimp only at h
  split at h
  · exact ⟨[], by simpa using h⟩
  · obtain ⟨other, _, rfl⟩ := List.mem_map.mp h
    exact ⟨_, rfl⟩

theorem mem_of_mem_sort {s : Sorting} {db : Database} {rows : List Row} {row : Row}
    (h : row ∈ s.sort db rows) : row ∈ rows := by
  have hjoined : ∀ (joins : List Join) (joined : List Joined),
      (∀ r ∈ joined, ∃ row ∈ rows, r.lookup [] = some row) →
      ∀ r ∈ joins.foldl (join db) joined, ∃ row ∈ rows, r.lookup [] = some row := by
    intro joins
    induction joins with
    | nil => exact fun _ h => h
    | cons j joins ih =>
        refine fun joined h => ih _ fun r hr => ?_
        obtain ⟨r', hr', more, rfl⟩ := lookup_join hr
        obtain ⟨row, hrow, hl⟩ := h r' hr'
        exact ⟨row, hrow, by rw [List.lookup_append, hl]; rfl⟩
  obtain ⟨r, hr, hl⟩ := List.mem_filterMap.mp h
  obtain ⟨row', hrow, hl'⟩ := hjoined s.joins _ (by simp [List.lookup]) r (List.mem_mergeSort.mp hr)
  rw [hl] at hl'
  cases hl'
  exact hrow

end Sorting

namespace Catalog

variable {c : Catalog} {db db' : Database} {entity : String} {p : Plan}

theorem model_ok_iff {m : Model} : c.model entity = .ok m ↔ c.model? entity = some m := by
  rw [model]
  cases c.model? entity with
  | none => simp [throw_ok_iff]
  | some m' => simp [pure_ok_iff]

theorem chosen_rows {m : Model} {rows : List Row} (h : (c.chosen m p).runOn db = (.ok rows, db')) :
    db' = db ∧ ∀ row ∈ rows, row ∈ db.rows m := by
  simp only [chosen, Act.runOn_bind_ok_iff, Act.runOn_liftM_ok_iff, Act.runOn_get_ok_iff,
    Act.runOn_pure_ok_iff] at h
  obtain ⟨condition, _, ⟨_, rfl⟩, sorting, _, ⟨_, rfl⟩, _, _, ⟨_, rfl⟩, _, _, ⟨_, rfl⟩, _, _, ⟨_, rfl⟩,
    _, _, ⟨rfl, rfl⟩, rfl, rfl⟩ := h
  exact ⟨rfl, fun row hrow => (List.mem_filter.mp (Sorting.mem_of_mem_sort hrow)).1⟩

theorem mem_of_mem_bounded {take : Option Int} {rows : List Row} {row : Row} (h : row ∈ bounded take rows) :
    row ∈ rows := by
  unfold bounded at h
  split at h
  · split at h
    · exact h
    · exact List.mem_of_mem_take h
  · exact h

/-- A record that is found is that of a row of the model, in the shape of the plan. -/
theorem findMany_records {records : List Value} (h : (c.findMany entity p).runOn db = (.ok records, db')) :
    ∃ m, c.model? entity = some m ∧ ∀ record ∈ records, ∃ row ∈ db.rows m, ∃ o, record = .object o ∧
      c.record db p.levels m p.loads p.shape row = .ok o := by
  simp only [findMany, Act.runOn_bind_ok_iff, Act.runOn_liftM_ok_iff] at h
  obtain ⟨m, _, ⟨hm, rfl⟩, rows, _, hrows, _, _, ⟨_, rfl⟩, _, _, ⟨_, rfl⟩, h⟩ := h
  obtain ⟨rfl, hrows⟩ := chosen_rows hrows
  refine ⟨m, model_ok_iff.mp hm, fun record hrecord => ?_⟩
  have hshown (s t : Database) (row : Row) (record : Value)
      (hs : (Value.object <$> c.shown m p row).runOn s = (.ok record, t)) :
      t = s ∧ ∃ o, record = .object o ∧ c.record s p.levels m p.loads p.shape row = .ok o := by
    simp only [shown, map_eq_pure_bind, bind_assoc, Act.runOn_bind_ok_iff, Act.runOn_get_ok_iff, Act.runOn_liftM_ok_iff,
      Act.runOn_pure_ok_iff] at hs
    obtain ⟨_, _, ⟨rfl, rfl⟩, o, _, ⟨ho, rfl⟩, rfl, rfl⟩ := hs
    exact ⟨rfl, o, rfl, ho⟩
  obtain ⟨_, hall⟩ := Act.runOn_mapM_ok (fun row record t hs => (hshown _ t row record hs).1) h
  obtain ⟨row, hin, hs⟩ := forall₂_partner hall.flip hrecord
  obtain ⟨_, o, rfl, ho⟩ := hshown _ _ row record hs
  exact ⟨row, hrows row (List.mem_of_mem_drop (mem_of_mem_bounded (List.mem_eraseDups.mp hin))), o, rfl, ho⟩

/-- The records that are found for a field list show nothing that is kept from the user, at any
depth, if the list is covered: then every relation that it names is opened by an entry of its own. -/
theorem selected_records_discreet (c : Catalog) (v : Viewpoint) (hd : v.schema.Describes c)
    {fields : String} {includes : Value} (hne : trimText fields ≠ "")
    (hc : Selection.CoveredRequest v entity fields includes) {maxDepth : Int} {shape : Selection.Shape}
    (hs : Selection.compile v maxDepth entity (.text fields) includes = .ok shape) {records : List Value}
    (hp : p.includes = shape.includes ∧ p.selects = shape.selects ∧ p.omits = shape.omits)
    (h : (c.storage.findMany entity p).runOn db = (.ok records, db') ∨
      (c.calls.findMany entity p).runOn db = (.ok records, db')) (depth : Nat) :
    ∃ m, c.model? entity = some m ∧ ∀ record ∈ records, ∃ row ∈ db.rows m, ∃ o,
      record = .object o ∧ c.Discreet v db depth entity row o := by
  have hrun : (c.findMany entity p).runOn db = (.ok records, db') := h.elim Query.transaction_ok id
  obtain ⟨tree, rfl, hvet⟩ := Selection.compile_vetted hne hc hs
  obtain ⟨hi, hsel, ho⟩ := hp
  have hshape : p.shape = [("select", .object tree)] := by
    simp [Plan.shape, hi, hsel, ho]
  have hloads : p.loads = tree := by
    simp [Plan.loads, hi, hsel]
  obtain ⟨m, hm, hall⟩ := findMany_records hrun
  refine ⟨m, hm, fun record hrecord => ?_⟩
  obtain ⟨row, hrow, o, rfl, hrec⟩ := hall record hrecord
  rw [hshape, hloads] at hrec
  have htree := hvet.subtree (show "select" ∈ ["include", "select"] by simp) rfl
  exact ⟨row, hrow, o, rfl, record_discreet hd hm htree hvet hrec⟩

/-! A blog whose readers see no passwords and only comments that were approved. -/

def blogCatalog : Catalog := ⟨[
  ("User", { name := "User", table := "users"
             columns := [{ name := "id", kind := .integer, isKey := true }, { name := "name", kind := .text },
               { name := "password", kind := .text }] }),
  ("Comment", { name := "Comment", table := "comments"
                columns := [{ name := "id", kind := .integer, isKey := true }, { name := "body", kind := .text },
                  { name := "approved", kind := .boolean }, { name := "postId", kind := .integer }] }),
  ("Post", { name := "Post", table := "posts"
             columns := [{ name := "id", kind := .integer, isKey := true }, { name := "authorId", kind := .integer }]
             links := [⟨"author", "User", .holds "authorId", "id"⟩,
               ⟨"comments", "Comment", .heldBy "postId" true, "id"⟩] })]⟩

def blogPosts : Model := (blogCatalog.model? "Post").getD default

def blogComments : Model := (blogCatalog.model? "Comment").getD default

def postComments : Link := ⟨"comments", "Comment", .heldBy "postId" true, "id"⟩

def blogDatabase : Database := { tables := [
  ("User", [[("id", .integer 7), ("name", .text "Ann"), ("password", .text "secret")]]),
  ("Comment", [[("id", .integer 1), ("body", .text "yes"), ("approved", .integer 1), ("postId", .integer 3)],
    [("id", .integer 2), ("body", .text "no"), ("approved", .integer 0), ("postId", .integer 3)]]),
  ("Post", [[("id", .integer 3), ("authorId", .integer 7)]])] }

def readerRules : Rules := ⟨[
  ("User", { omitted := some fun _ => .ok (.list [.text "password"]) }),
  ("Comment", { readable := some fun _ => .ok (.object [("approved", .bool true)]) })]⟩

def reader : Viewpoint := ⟨blogCatalog.schema, readerRules, .principal {}⟩

theorem blogCatalog_wellFormed : blogCatalog.WellFormed where
  entities := by decide
  names := by simp [blogCatalog]
  closed := by simp [blogCatalog]
  apart := by simp [blogCatalog, Model.link?]

/-- A plan that names fields of the author and of the comments by path. -/
def pathPlan : Plan := { selects := some [("id", .bool true),
  ("author", .object [("select", .object [("name", .bool true)])]),
  ("comments", .object [("select", .object [("body", .bool true)]),
    ("where", .object [("approved", .bool true)])])] }

def pathRecords : List Value := [.object [("id", .int 3), ("author", .object [("name", .text "Ann")]),
  ("comments", .list [.object [("body", .text "yes")]])]]

theorem pathFields_covered :
    Selection.CoveredRequest reader "Post" "id,author.name,comments.body" (.text "author,comments") := by
  intro request query available hrequest hquery havailable
  have hr : IncludeRequest.ofValue (.text "author,comments") = .ok ⟨.text "author,comments", []⟩ := rfl
  rw [hr] at hrequest
  cases hrequest
  have hq : IncludeRequest.text? ⟨.text "author,comments", []⟩ = .ok (some "author,comments") := by cbv
  rw [hq] at hquery
  cases hquery
  have ha : Include.available reader "Post" (some "author,comments") = .ok ["author", "comments"] := by cbv
  rw [ha] at havailable
  cases havailable
  have hfields : Selection.parseFields "id,author.name,comments.body" =
      (["id"], [("author", ["name"]), ("comments", ["body"])]) := by cbv
  have hid : reader.schema.relation? "Post" "id" = .ok none := by cbv
  have hauthor : reader.schema.relation? "Post" "author" =
      .ok (some ⟨"author", "User", .one, ["authorId"], ["id"]⟩) := by cbv
  have hcomments : reader.schema.relation? "Post" "comments" =
      .ok (some ⟨"comments", "Comment", .many, [], ["postId"]⟩) := by cbv
  have hcolumn {entity name : String}
      (hparse : Selection.parseFields (joinTexts "," [name]) = ([name], []))
      (hnone : reader.schema.relation? entity name = .ok none) :
      Selection.Covered reader entity (Selection.heads [name]) (joinTexts "," [name]) := by
    rw [Selection.heads, hparse]
    exact .of_columns (by rw [hparse]; simpa using hnone) (by rw [hparse])
  refine .of (fun name hn r hr => ?_) (fun name r hn hr => ?_) (fun name rests r hm hr => ?_)
  · rw [hfields, List.mem_singleton] at hn
    rw [hn, hid] at hr
    cases hr
  · simp only [hfields, List.mem_cons, List.not_mem_nil, or_false] at hn
    rcases hn with rfl | rfl | rfl
    · rw [hid] at hr; cases hr
    · rw [hauthor] at hr; cases hr
      intro hl
      cases hl
    · rw [hcomments] at hr; cases hr
      intro _ d hd
      have hread : reader.decide .read "Comment" = .ok (.restrict [("approved", .bool true)]) := by cbv
      rw [hread] at hd
      cases hd
      rfl
  · simp only [hfields, List.mem_cons, List.not_mem_nil, or_false, Prod.mk.injEq] at hm
    rcases hm with ⟨rfl, rfl⟩ | ⟨rfl, rfl⟩
    · rw [hauthor] at hr; cases hr
      exact hcolumn (by cbv) (by cbv)
    · rw [hcomments] at hr; cases hr
      exact hcolumn (by cbv) (by cbv)

/-- Read by paths, a post shows the name of its author and the comments that were approved. -/
theorem pathRecords_discreet :
    blogCatalog.schema.Describes blogCatalog ∧ trimText "id,author.name,comments.body" ≠ "" ∧
    Selection.CoveredRequest reader "Post" "id,author.name,comments.body" (.text "author,comments") ∧
    Selection.compile reader 10 "Post" (.text "id,author.name,comments.body") (.text "author,comments") =
      .ok { selects := pathPlan.selects } ∧
    (blogCatalog.storage.findMany "Post" pathPlan).runOn blogDatabase = (.ok pathRecords, blogDatabase) ∧
    ∀ depth, ∃ m, blogCatalog.model? "Post" = some m ∧ ∀ record ∈ pathRecords,
      ∃ row ∈ blogDatabase.rows m, ∃ o, record = .object o ∧
        blogCatalog.Discreet reader blogDatabase depth "Post" row o := by
  have hd := schema_describes blogCatalog_wellFormed
  have hne : trimText "id,author.name,comments.body" ≠ "" := by cbv
  have hs : Selection.compile reader 10 "Post" (.text "id,author.name,comments.body")
      (.text "author,comments") = .ok { selects := pathPlan.selects } := by cbv
  have hrun : (blogCatalog.storage.findMany "Post" pathPlan).runOn blogDatabase =
      (.ok pathRecords, blogDatabase) := by cbv
  exact ⟨hd, hne, pathFields_covered, hs, hrun, fun depth =>
    selected_records_discreet blogCatalog reader hd hne pathFields_covered hs ⟨rfl, rfl, rfl⟩ (.inl hrun) depth⟩

/-- A plan that names the author and the comments without a path, and includes neither. -/
def barePlan : Plan := { selects := some [("id", .bool true), ("author", .bool true), ("comments", .bool true)] }

def bareRecords : List Value := [.object [("id", .int 3),
  ("author", .object [("id", .int 7), ("name", .text "Ann"), ("password", .text "secret")]),
  ("comments", .list [
    .object [("id", .int 1), ("body", .text "yes"), ("approved", .bool true), ("postId", .int 3)],
    .object [("id", .int 2), ("body", .text "no"), ("approved", .bool false), ("postId", .int 3)]])]]

/-- Read without a path, the author comes with the password, and the comments with one that was not
approved. -/
theorem bareRecords_indiscreet :
    blogCatalog.schema.Describes blogCatalog ∧
    Selection.compile reader 10 "Post" (.text "id,author,comments") .null = .ok { selects := barePlan.selects } ∧
    (blogCatalog.storage.findMany "Post" barePlan).runOn blogDatabase = (.ok bareRecords, blogDatabase) ∧
    ¬ ∀ record ∈ bareRecords, ∃ row o, record = .object o ∧
      blogCatalog.Discreet reader blogDatabase 2 "Post" row o := by
  have hs : Selection.compile reader 10 "Post" (.text "id,author,comments") .null =
      .ok { selects := barePlan.selects } := by cbv
  have hrun : (blogCatalog.storage.findMany "Post" barePlan).runOn blogDatabase =
      (.ok bareRecords, blogDatabase) := by cbv
  refine ⟨schema_describes blogCatalog_wellFormed, hs, hrun, fun h => ?_⟩
  obtain ⟨row, o, ho, post, hpost, hmembers⟩ := h _ (List.mem_singleton.mpr rfl)
  cases ho
  cases hpost
  obtain ⟨r, _, _, rows, hr, _, _, _, _, _, hitems⟩ := hmembers "author"
    (.object [("id", .int 7), ("name", .text "Ann"), ("password", .text "secret")]) (by simp)
  have hauthor : reader.schema.relation? "Post" "author" =
      .ok (some ⟨"author", "User", .one, ["authorId"], ["id"]⟩) := by cbv
  rw [hauthor] at hr
  cases hr
  cases hitems with
  | cons hitem _ =>
      obtain ⟨o, he, user, huser, hcolumns⟩ := hitem
      cases he
      cases huser
      obtain ⟨_, hshown⟩ := hcolumns "password" (.text "secret") (by simp)
      exact hshown ⟨["password"], rfl, by simp⟩

end Catalog

end RecordGraph
