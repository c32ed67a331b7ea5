import RecordGraph.Proofs.Mutation.Ready

/-!
# Nested writes are confined

A client links only records that it may read, updates only rows that it may update and creates only
what it may create, however deep in a payload they stand.
-/

namespace RecordGraph.Writer

/-- All conditions and bodies in a transformed payload keep to the rules: a record is connected under
a condition that only readable rows satisfy, an entry of a list is updated under one that only
updatable rows satisfy, and nothing is created that could not be created on its own. -/
theorem written_parts_permitted (w : Writer) (hr : w.view.rules.Proper) (hs : w.view.schema.Distinct)
    {entity : String} {payload out : Object} (hp : w.Plain entity payload)
    (h : w.create entity payload = .ok out ∨ ∃ id, w.update entity id payload = .ok out) :
    (∀ r condition, Occurs w.view.schema entity out r (.connected condition) →
      w.Confined .read r.target condition) ∧
    (∀ r condition, Occurs w.view.schema entity out r (.updated condition) →
      w.Confined .update r.target condition) ∧
    ∀ r, (∀ body, w.view.canCreate r.target body = .ok false) →
      ∀ body, ¬ Occurs w.view.schema entity out r (.created body) := by
  have hready : w.ReadyBody entity out := by
    rcases h with h | ⟨id, h⟩
    · exact create_ready hr hs hp h
    · exact update_ready hr hs hp h
  have hall := hready.permits
  refine ⟨fun r _ ho => hall r _ ho, fun r _ ho => hall r _ ho, fun r hno body ho => ?_⟩
  obtain ⟨given, hc⟩ := hall r _ ho
  rw [hno given] at hc
  cases hc

/-! A post with comments, written by a user who reads only active users. -/

def blogSchema : Schema := ⟨[
  ("Post", .ok ⟨"Post", ["id"], [⟨"id", .scalar, "int", false, false, true, false⟩,
      ⟨"comments", .relation, "Comment", false, false, false, true⟩],
    [⟨"comments", "Comment", .many, [], ["postId"]⟩]⟩),
  ("Comment", .ok ⟨"Comment", ["id"], [⟨"id", .scalar, "int", false, false, true, false⟩,
      ⟨"authorId", .scalar, "int", true, false, false, false⟩],
    [⟨"author", "User", .one, ["authorId"], ["id"]⟩]⟩),
  ("User", .ok ⟨"User", ["id"], [⟨"id", .scalar, "int", false, false, true, false⟩], []⟩)]⟩

def blogRules : Rules := .reading "User" (.object [("active", .bool true)])

def blogWriter : Writer := { view := ⟨blogSchema, blogRules, .principal {}⟩ }

def commentedPost : Object := [("comments", .list [.object [("authorId", .int 7)]])]

def linkedPost : Object :=
  [("comments", .object [("create", .list [.object [("author", .object [("connect",
    .object [("id", .int 7), ("active", .bool true)])])]])])]

theorem blogRules_proper : blogRules.Proper :=
  Rules.reading_proper (by decide)

theorem blogSchema_distinct : blogSchema.Distinct := Schema.distinct_of_all (by decide)

theorem commentedPost_plain : blogWriter.Plain "Post" commentedPost := by
  intro v hn
  cases hn with
  | here hr hm =>
      cases List.mem_singleton.mp hm
      rfl
  | inside hr hm hi hn =>
      cases List.mem_singleton.mp hm
      cases hr
      cases List.mem_singleton.mp hi
      cases hn with
      | here hr hm => cases List.mem_singleton.mp hm; cases hr
      | inside hr hm => cases List.mem_singleton.mp hm; cases hr

/-- The author is connected two levels down, under a condition that only active users satisfy. -/
theorem linkedPost_permitted :
    blogRules.Proper ∧ blogSchema.Distinct ∧ blogWriter.Plain "Post" commentedPost ∧
    blogWriter.create "Post" commentedPost = .ok linkedPost ∧
    blogWriter.Confined .read "User" (.object [("id", .int 7), ("active", .bool true)]) := by
  have hc : blogWriter.create "Post" commentedPost = .ok linkedPost := rfl
  have h := written_parts_permitted blogWriter blogRules_proper blogSchema_distinct
    commentedPost_plain (.inl hc)
  refine ⟨blogRules_proper, blogSchema_distinct, commentedPost_plain, hc, ?_⟩
  have hcomments : blogSchema.relation? "Post" "comments" =
      .ok (some ⟨"comments", "Comment", .many, [], ["postId"]⟩) := rfl
  have hauthor : blogSchema.relation? "Comment" "author" =
      .ok (some ⟨"author", "User", .one, ["authorId"], ["id"]⟩) := rfl
  have hlink : Occurs blogSchema "Comment" [("author", .object [("connect",
      .object [("id", .int 7), ("active", .bool true)])])] ⟨"author", "User", .one, ["authorId"], ["id"]⟩
      (.connected (.object [("id", .int 7), ("active", .bool true)])) :=
    .here hauthor (List.mem_singleton.mpr rfl) (List.mem_singleton.mpr rfl)
  have hbody : Part.created (.object [("author", .object [("connect",
      .object [("id", .int 7), ("active", .bool true)])])]) ∈ Part.ofOperations [("create", .list
        [.object [("author", .object [("connect", .object [("id", .int 7), ("active", .bool true)])])]])] :=
    List.mem_singleton.mpr rfl
  exact h.1 _ _ (.inside hcomments (List.mem_singleton.mpr rfl) hbody rfl hlink)

end RecordGraph.Writer
