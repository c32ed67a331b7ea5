import RecordGraph.Proofs.Access.Merge
import RecordGraph.Proofs.Mutation.Updated

/-!
# Denied changes

A writer whom the rules let change no record of an entity changes none in a list: a list with an
item to update is refused. For the one record of a relation the rules on changes are never asked,
only those on creations, so that it is changed wherever such a record is given.
-/

namespace RecordGraph

/-- The values of relations in a payload of an entity, at any depth, each with its relation. -/
inductive Given (s : Schema) (entity : String) (payload : Object) : Relation → Value → Prop
  | here {key r v} (hr : s.relation? entity key = .ok (some r)) (hm : (key, v) ∈ payload) :
      Given s entity payload r v
  | inside {r v item key r' v'} (h : Given s entity payload r v) (hi : .object item ∈ v.asItems)
      (hr : s.relation? r.target key = .ok (some r')) (hm : (key, v') ∈ item) :
      Given s entity payload r' v'

namespace Writer

variable {w : Writer} {entity target : String} {payload out : Object} {r : Relation} {v : Value}

/-- In a payload without operations no value is one, nor does one hold an operation further down. -/
theorem Plain.given (hp : w.Plain entity payload) (h : Given w.view.schema entity payload r v) :
    Payload.isOperation v = false ∧ ∀ item, .object item ∈ v.asItems → w.Plain r.target item := by
  induction h with
  | here hr hm => exact ⟨hp _ (.here hr hm), fun _ hi _ hn => hp _ (.inside hr hm hi hn)⟩
  | inside _ hi hr hm ih =>
      exact ⟨ih.2 _ hi _ (.here hr hm), fun _ hi' _ hn => ih.2 _ hi _ (.inside hr hm hi' hn)⟩

theorem updateGuard_denied (hd : w.view.decide .update target = .ok .deny) :
    w.updateGuard target = .error (.access Action.update.refusal target) := by
  have hd' : w.view.rules.decide .update target w.view.user = .ok .deny := hd
  simp only [updateGuard, Viewpoint.filterFor, Rules.filterFor, hd']
  rfl

/-- A change of a record of the target comes of a record that was given for a relation to it and that
the writer could create. -/
def OfRecord (w : Writer) (entity : String) (payload : Object) (target : String) (r : Relation) :
    Part → Prop
  | .changed _ => r.target = target → ∃ item, item ≠ [] ∧
      Given w.view.schema entity payload r (.object item) ∧
      w.view.canCreate target (.object item) = .ok true
  | _ => True

/-- The guard of updates is asked of every item of a list, and there is none. -/
theorem ofRecord_granted (hd : w.view.decide .update target = .ok .deny) (hp : w.Plain entity payload) :
    w.Grants (w.OfRecord entity payload target)
      (fun r v => Given w.view.schema entity payload r v ∨ v = .object []) where
  plain h := by
    rcases h with h | rfl
    · exact (hp.given h).1
    · rfl
  empty := .inr rfl
  inside h hi hr hm := by
    rcases h with h | rfl
    · exact .inl (.inside h hi hr hm)
    · cases List.mem_singleton.mp hi
      cases hm
  linked _ _ _ _ := trivial
  connected _ := trivial
  created _ _ := trivial
  updated _ := trivial
  changed hg _ ht := by
    subst ht
    rw [updateGuard_denied hd] at hg
    cases hg
  changedOne h hne hc _ ht := by
    subst ht
    rcases h with h | he
    · exact ⟨_, hne, h, hc⟩
    · exact absurd (Value.object.inj he) hne

/-- What a writer who may update no record of an entity still changes there: only records that stand
in the payload as the one record of a relation, and that the writer might create. In particular
nothing is changed where records of the entity are reached through lists alone. -/
theorem denied_changes_given (w : Writer) {entity target : String} {id : Value} {payload out : Object}
    (hd : w.view.decide .update target = .ok .deny) (hp : w.Plain entity payload)
    (h : w.update entity id payload = .ok out) {r : Relation} {body : Value} (ht : r.target = target)
    (ho : Occurs w.view.schema entity out r (.changed body)) :
    ∃ item, item ≠ [] ∧ Given w.view.schema entity payload r (.object item) ∧
      w.view.canCreate target (.object item) = .ok true := by
  have hg := ofRecord_granted hd hp
  have hstart : w.SettledBody (w.OfRecord entity payload target)
      (fun r v => Given w.view.schema entity payload r v ∨ v = .object []) entity payload :=
    fun _ _ _ hm hr => hg.settled (.inl (.here hr hm))
  exact (update_settled hg hstart h).holds r _ ho ht

/-! Users whom nobody may change, as the authors of a post and of its comments. -/

def forumSchema : Schema := ⟨[
  ("Post", .ok ⟨"Post", ["id"], [⟨"id", .scalar, "int", false, false, true, false⟩,
      ⟨"author", .relation, "User", false, false, false, false⟩,
      ⟨"comments", .relation, "Comment", false, false, false, true⟩],
    [⟨"author", "User", .one, ["authorId"], ["id"]⟩, ⟨"comments", "Comment", .many, [], ["postId"]⟩]⟩),
  ("Comment", .ok ⟨"Comment", ["id"], [⟨"id", .scalar, "int", false, false, true, false⟩,
      ⟨"author", .relation, "User", false, false, false, false⟩],
    [⟨"author", "User", .one, ["authorId"], ["id"]⟩]⟩),
  ("User", .ok ⟨"User", ["id"], [⟨"id", .scalar, "int", false, false, true, false⟩,
      ⟨"name", .scalar, "string", false, false, false, false⟩], []⟩)]⟩

def forumWriter : Writer :=
  { view := ⟨forumSchema, ⟨[("User", { updatable := some fun _ => .ok (.bool false) })]⟩, .principal {}⟩ }

def authorLink : Relation := ⟨"author", "User", .one, ["authorId"], ["id"]⟩

def renamedAuthor : Object := [("author", .object [("name", .text "Mallory")])]

def renamedCommenter : Object :=
  [("comments", .list [.object [("id", .int 3), ("author", .object [("name", .text "Mallory")])]])]

/-- What comes of a renamed author. -/
def authorChange : Object := [("author", .object [("upsert", .object
  [("create", .object [("name", .text "Mallory")]), ("update", .object [("name", .text "Mallory")])])])]

def commenterChange : Object := [("comments", .object [("upsert", .list [.object
  [("where", .object [("id", .int 3)]), ("create", .object (("id", .int 3) :: authorChange)),
    ("update", .object authorChange)]])])]

/-- A user has no relations. -/
theorem user_plain {body : Object} : forumWriter.Plain "User" body := by
  intro v hn
  cases hn with
  | here hr | inside hr => cases hr

theorem renamedAuthor_plain {entity : String}
    (hr : forumSchema.relation? entity "author" = .ok (some authorLink)) :
    forumWriter.Plain entity renamedAuthor := by
  intro v hn
  cases hn with
  | here _ hm => cases List.mem_singleton.mp hm; rfl
  | inside hr' hm hi hn =>
      cases List.mem_singleton.mp hm
      cases hr.symm.trans hr'
      exact user_plain _ hn

theorem renamedCommenter_plain : forumWriter.Plain "Post" renamedCommenter := by
  intro v hn
  cases hn with
  | here _ hm => cases List.mem_singleton.mp hm; rfl
  | inside hr hm hi hn =>
      cases List.mem_singleton.mp hm
      cases hr
      cases List.mem_singleton.mp hi
      cases hn with
      | here hr hm =>
          rcases List.mem_pair.mp hm with hm | hm <;> cases hm
          · cases hr
          · rfl
      | inside hr hm hi hn =>
          rcases List.mem_pair.mp hm with hm | hm <;> cases hm
          · cases hr
          · cases hr
            exact user_plain _ hn

theorem authorChange_occurs {entity : String}
    (hr : forumSchema.relation? entity "author" = .ok (some authorLink)) :
    Occurs forumSchema entity authorChange authorLink (.changed (.object [("name", .text "Mallory")])) :=
  .here hr (List.mem_singleton.mpr rfl) (List.mem_pair.mpr (.inr rfl))

theorem commenterChange_occurs : Occurs forumSchema "Post" commenterChange authorLink
    (.changed (.object [("name", .text "Mallory")])) := by
  have hupdate : .changed (.object authorChange) ∈ Part.ofOperations [("upsert", .list [.object
      [("where", .object [("id", .int 3)]), ("create", .object (("id", .int 3) :: authorChange)),
        ("update", .object authorChange)]])] := by
    simp [Part.ofOperations, Value.asItems, Part.ofItem_upsert]
  exact .inside rfl (List.mem_singleton.mpr rfl) hupdate rfl (authorChange_occurs rfl)

/-- The author of a comment in a list is changed, and was given as a record. -/
theorem renamedCommenter_given :
    forumWriter.view.decide .update "User" = .ok .deny ∧ forumWriter.Plain "Post" renamedCommenter ∧
    forumWriter.update "Post" (.int 1) renamedCommenter = .ok commenterChange ∧
    Occurs forumSchema "Post" commenterChange authorLink (.changed (.object [("name", .text "Mallory")])) ∧
    ∃ item, item ≠ [] ∧ Given forumSchema "Post" renamedCommenter authorLink (.object item) ∧
      forumWriter.view.canCreate "User" (.object item) = .ok true := by
  have hu : forumWriter.update "Post" (.int 1) renamedCommenter = .ok commenterChange := rfl
  refine ⟨rfl, renamedCommenter_plain, hu, commenterChange_occurs, ?_⟩
  exact denied_changes_given forumWriter rfl renamedCommenter_plain hu rfl commenterChange_occurs

/-- The author of a post is renamed although the rules let nobody change a user. -/
theorem renamedAuthor_changed :
    forumWriter.view.decide .update "User" = .ok .deny ∧ forumWriter.Plain "Post" renamedAuthor ∧
    forumWriter.update "Post" (.int 1) renamedAuthor = .ok authorChange ∧
    Occurs forumSchema "Post" authorChange authorLink (.changed (.object [("name", .text "Mallory")])) :=
  ⟨rfl, renamedAuthor_plain rfl, rfl, authorChange_occurs rfl⟩

end Writer

end RecordGraph
