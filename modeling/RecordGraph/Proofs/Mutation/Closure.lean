import RecordGraph.Proofs.Mutation.Ready
import RecordGraph.Proofs.Mutation.Withheld

/-!
# Closed payloads

Bodies are worked out at different moments: foreign keys of new records are turned together with the
relations, those of changes after the relations were turned and the keys were left out. Whichever way
a body comes about, at whatever depth, it is closed under the schema.
-/

namespace RecordGraph.Writer

variable {w : Writer} {entity : String} {payload out : Object} {top : BodyKind}

/-- The body of a part is closed under the schema. -/
def PartClosed (w : Writer) (r : Relation) : Part → Prop
  | .created b | .changed b => ∃ body, b = .object body ∧ w.Closed r.target body
  | .connected _ | .updated _ => True

/-- Whatever the rules are, bodies are closed. -/
theorem closed_granted (w : Writer) : w.Grants w.PartClosed w.PlainUnder where
  plain h := h.1
  empty := plainUnder_nil
  inside h hi hr hm := h.inside hi hr hm
  linked _ _ _ _ := trivial
  connected _ := trivial
  created _ hc := ⟨_, rfl, hc⟩
  updated _ := trivial
  changed _ hc := ⟨_, rfl, hc⟩
  changedOne _ _ _ hc := ⟨_, rfl, hc⟩

theorem Transforms.closed (h : w.Transforms entity payload out top) : w.Closed entity out := by
  cases top with
  | prepared => exact h.elim
  | created => exact create_closed h
  | changed =>
      obtain ⟨id, h⟩ := h
      exact update_closed h

theorem Transforms.partsClosed (hp : w.Plain entity payload) (h : w.Transforms entity payload out top) :
    w.Holds w.PartClosed entity out := by
  have hg := closed_granted w
  have hstart : w.SettledBody w.PartClosed w.PlainUnder entity payload :=
    fun _ _ _ hm hr => hg.settled (hp.under hr hm)
  cases top with
  | prepared => exact h.elim
  | created => exact (create_settled hg hstart h).holds
  | changed =>
      obtain ⟨id, h⟩ := h
      exact (update_settled hg hstart h).holds

/-- Every body in a transformed payload is closed under the schema: its keys are fields and relations
of its entity, and no foreign key is left that was not turned into its relation. -/
theorem bodies_closed (w : Writer) {entity : String} {payload out : Object} {top : BodyKind}
    (hp : w.Plain entity payload) (h : w.Transforms entity payload out top)
    {kind : BodyKind} {target : String} {b : Value}
    (hb : BodyIn w.view.schema entity top out kind target b) :
    ∃ e, ∃ body : Object, w.view.schema.entity target = .ok e ∧ b = .object body ∧ e.Closed body := by
  have hparts := h.partsClosed hp
  cases hb with
  | whole =>
      obtain ⟨e, he, hclosed⟩ := h.closed
      exact ⟨e, out, he, rfl, hclosed⟩
  | created ho | changed ho =>
      obtain ⟨body, rfl, e, he, hclosed⟩ := hparts _ _ ho
      exact ⟨e, body, he, rfl, hclosed⟩

/-! Books on a shelf, given with the keys of their authors. -/

def librarySchema : Schema := ⟨[
  ("Shelf", .ok ⟨"Shelf", ["id"], [⟨"id", .scalar, "int", false, false, true, false⟩,
      ⟨"books", .relation, "Book", false, false, false, true⟩],
    [⟨"books", "Book", .many, [], ["shelfId"]⟩]⟩),
  ("Book", .ok ⟨"Book", ["id"], [⟨"id", .scalar, "int", false, false, true, false⟩,
      ⟨"title", .scalar, "string", false, false, false, false⟩,
      ⟨"authorId", .scalar, "int", true, false, false, false⟩,
      ⟨"shelfId", .scalar, "int", true, false, false, false⟩,
      ⟨"author", .relation, "Author", true, false, false, false⟩],
    [⟨"author", "Author", .one, ["authorId"], ["id"]⟩]⟩),
  ("Author", .ok ⟨"Author", ["id"], [⟨"id", .scalar, "int", false, false, true, false⟩], []⟩)]⟩

def librarian : Writer := { view := ⟨librarySchema, ⟨[]⟩, .principal {}⟩ }

def libraryBooks : Relation := ⟨"books", "Book", .many, [], ["shelfId"]⟩

def signedBook : Object := [("id", .int 3), ("title", .text "Emma"), ("authorId", .int 7)]

def anonymousBook : Object := [("id", .int 4), ("authorId", .null)]

def bookshelf : Object := [("books", .list [.object signedBook, .object anonymousBook])]

/-- The changes to a book whose author is given. -/
def signedChanges : Object :=
  [("title", .text "Emma"), ("author", .object [("connect", .object [("id", .int 7)])])]

/-- The changes to a book whose author is taken away. -/
def anonymousChanges : Object := [("author", .object [("disconnect", .bool true)])]

def changedBookshelf : Object := [("books", .object [("upsert", .list [
  .object [("where", .object [("id", .int 3)]), ("create", .object (("id", .int 3) :: signedChanges)),
    ("update", .object signedChanges)],
  .object [("where", .object [("id", .int 4)]), ("create", .object [("id", .int 4)]),
    ("update", .object anonymousChanges)]])])]

theorem bookshelf_plain : librarian.Plain "Shelf" bookshelf := by
  intro v hn
  cases hn with
  | here _ hm => cases List.mem_singleton.mp hm; rfl
  | inside hr hm hi hn =>
      cases List.mem_singleton.mp hm
      cases hr
      refine plain_of_scalars ?_ _ hn
      rcases List.mem_pair.mp hi with hi | hi <;> cases hi
      · simp only [signedBook, List.forall_mem_cons]
        exact ⟨rfl, rfl, rfl, nofun⟩
      · simp only [anonymousBook, List.forall_mem_cons]
        exact ⟨rfl, rfl, nofun⟩

theorem anonymousChanges_changed :
    BodyIn librarySchema "Shelf" .changed changedBookshelf .changed "Book" (.object anonymousChanges) := by
  refine .changed (r := libraryBooks) (.here rfl (List.mem_singleton.mpr rfl) ?_)
  simp [Part.ofOperations, Value.asItems, Part.ofItem_upsert]

/-- A null author of a book is turned into a disconnection. -/
theorem anonymousChanges_closed :
    librarian.Plain "Shelf" bookshelf ∧ librarian.update "Shelf" (.int 1) bookshelf = .ok changedBookshelf ∧
    BodyIn librarySchema "Shelf" .changed changedBookshelf .changed "Book" (.object anonymousChanges) ∧
    ∃ e, ∃ body : Object, librarySchema.entity "Book" = .ok e ∧
      Value.object anonymousChanges = .object body ∧ e.Closed body := by
  have hu : librarian.update "Shelf" (.int 1) bookshelf = .ok changedBookshelf := rfl
  have ht : librarian.Transforms "Shelf" bookshelf changedBookshelf .changed := ⟨_, hu⟩
  exact ⟨bookshelf_plain, hu, anonymousChanges_changed,
    bodies_closed librarian bookshelf_plain ht anonymousChanges_changed⟩

end RecordGraph.Writer
