import RecordGraph.Proofs.Mutation.Tallies

/-!
# Rows under their parents

The rows of a join table that are connected and updated by the lists of a payload are looked up by their whole keys. The
record that is updated stands in the keys of the rows of its own lists. A list further down does not know the record
that it hangs from, and an item that names the back-reference itself goes where it says.
-/

namespace RecordGraph

/-- What stands in a proper payload is proper. -/
theorem Given.proper {s : Schema} {entity : String} {payload : Object} {r : Relation} {v : Value}
    (hp : (Value.object payload).Proper) (h : Given s entity payload r v) : v.Proper := by
  induction h with
  | here _ hm => exact Value.properMembers_iff.mp hp.2 _ hm
  | @inside _ v item _ _ _ _ hi _ hm ih =>
      have hitem : (Value.object item).Proper := by
        cases v with
        | list => exact ih.item hi
        | null => cases hi
        | _ => exact List.mem_singleton.mp hi ▸ ih
      exact Value.properMembers_iff.mp hitem.2 _ hm

namespace Writer

/-- A condition on the rows of a join table finds a given item by its whole key. It requires the parent, unless the item
names the back-reference itself. -/
def KeyedBy (w : Writer) (entity : String) (payload : Object) (parent : Value) (r : Relation) (part : Part) : Prop :=
  ∀ condition names e, part.condition? = some condition → r.fields = [] →
    w.view.schema.joinKey? r = .ok (some names) → w.view.schema.entity r.target = .ok e →
    ∃ v item, Given w.view.schema entity payload r v ∧ .object item ∈ v.asItems ∧
      Finds r e (some names) parent item condition ∧
      (r.references.headD "" ∉ item.keys → StaysUnder r names parent condition)

variable {w : Writer} {T : Relation → Value → Option Value → Prop} {entity : String} {payload out item ops : Object}
  {r : Relation} {v parent : Value} {part : Part} {levels : Nat}

/-! ## Conditions -/

/-- The condition of an entry is that of its item. -/
theorem ListTerms.Represents.finds {t : w.ListTerms r} {op : String} {entry condition : Value}
    (h : t.Represents T parent item (some (op, entry))) (hpart : part ∈ Part.ofItem op entry)
    (hc : part.condition? = some condition) : Finds r t.target t.joinKey parent item condition := by
  cases h with
  | connect _ hrow =>
      cases List.mem_singleton.mp hpart
      cases hc
      exact hrow
  | upsert _ hrow =>
      rw [Part.ofItem_upsert] at hpart
      simp only [List.mem_cons, List.not_mem_nil, or_false] at hpart
      rcases hpart with rfl | rfl | rfl
      · cases hc
        exact hrow
      · cases hc
      · cases hc
  | update _ hrow =>
      rcases List.mem_pair.mp hpart with rfl | rfl
      · cases hc
        exact hrow
      · cases hc
  | create =>
      cases List.mem_singleton.mp hpart
      cases hc

/-- Every part under a list relation is one of the entry of an item. -/
theorem mem_listOperations {placed : List (Option (String × Value))}
    (h : part ∈ Part.ofOperations (listOperations placed)) :
    ∃ op entry, some (op, entry) ∈ placed ∧ part ∈ Part.ofItem op entry := by
  obtain ⟨⟨op, x⟩, hx, hpart⟩ := List.mem_flatMap.mp h
  obtain ⟨kind, _, hx⟩ := List.mem_flatMap.mp hx
  unfold Placement.member at hx
  split at hx
  next => cases hx
  next =>
    cases List.mem_singleton.mp hx
    obtain ⟨entry, hentry, hpart⟩ := List.mem_flatMap.mp hpart
    exact ⟨_, entry, mem_entriesOf.mp hentry, hpart⟩

theorem Tallies.keyed {items : List Value} (h : w.Tallies T parent r (.list items) (some (.object ops)))
    (hgiven : Given w.view.schema entity payload r (.list items)) (hpart : part ∈ Part.ofOperations ops) :
    w.KeyedBy entity payload parent r part := by
  intro condition names e hc _ hjoin he
  cases h with
  | many t hplaced =>
      obtain ⟨op, entry, hentry, hpart⟩ := mem_listOperations hpart
      obtain ⟨_, hin, item, rfl, htold⟩ := forall₂_partner hplaced.flip hentry
      have hrow := htold.finds hpart hc
      rw [show t.joinKey = some names from Except.ok.inj (t.joinKey_eq.symm.trans hjoin),
        show t.target = e from Except.ok.inj (t.target_eq.symm.trans he)] at hrow
      exact ⟨_, item, hgiven, hin, hrow, hrow.staysUnder (joinKey_some hjoin).2.2⟩

/-! ## Operations -/

/-- A relation by whose field a record is linked is no list of rows of a join table. -/
theorem linked_keyed {e : Entity} {field : String} {r' : Relation} {filter : Object}
    (hs : (e.relations.map (·.name)).Nodup) (hf : e.relationForField? field = some r')
    (hr : e.relation? r'.name = some r) : w.KeyedBy entity payload parent r (.connected (.object filter)) := by
  intro condition names target _ hfields
  have hheld := Entity.field_of_foreign hs hr hf rfl
  rw [Relation.field?, hfields] at hheld
  cases hheld

/-- The operations for a given value are keyed by a parent, and those in their bodies by none. -/
def KeyedUnder (w : Writer) (entity : String) (payload : Object) (parent : Value) (r : Relation) (v ops : Value) :
    Prop :=
  Given w.view.schema entity payload r v →
    w.HoldsBelow (w.KeyedBy entity payload parent) (w.KeyedBy entity payload .null) r ops

section
variable (hp : w.Plain entity payload) (hs : w.view.schema.Distinct)
include hp hs

/-- What is drawn from a given item is keyed as what the relations are turned into is. -/
theorem Drawn.keyed {A : Prop} {kind : BodyKind} {e : Entity} {target key : String} {body : Object}
    {dropped : List String} (he : w.view.schema.entity target = .ok e)
    (hitem : ∀ {key v r}, (key, v) ∈ item → w.view.schema.relation? target key = .ok (some r) →
      Given w.view.schema entity payload r v)
    (h : w.Drawn (w.KeyedUnder entity payload parent) kind e A (item.without dropped) body) (hkv : (key, v) ∈ body)
    (hr : w.view.schema.relation? target key = .ok (some r)) :
    w.HoldsBelow (w.KeyedBy entity payload parent) (w.KeyedBy entity payload .null) r v :=
  h.below hp he hitem (linked_keyed (hs _ _ he)) hkv hr

theorem PartOf.keyed {id : Value} {e : Entity} {listed : Bool} (he : w.view.schema.entity r.target = .ok e)
    (hgiven : Given w.view.schema entity payload r v) (hi : .object item ∈ v.asItems)
    (h : w.PartOf (w.KeyedUnder entity payload .null) id r e item listed part) (inner : Object)
    (hinner : part.body? = some (.object inner)) : w.Holds (w.KeyedBy entity payload .null) r.target inner := by
  have hbody : ∀ {kind body}, w.BodyOf (w.KeyedUnder entity payload .null) e item kind r.target body →
      w.Holds (w.KeyedBy entity payload .null) r.target body := by
    rintro kind body ⟨_, dropped, _, _, _, hdrawn⟩
    refine holds_iff.mpr fun key v r hkv hr => ?_
    exact hdrawn.keyed hp hs he (fun hm hr => .inside hgiven hi hr hm) hkv hr
  cases h with
  | found _ _ hc =>
      cases part with
      | connected | updated => cases hinner
      | created | changed => cases hc
  | created hb | changed hb =>
      cases hinner
      exact hbody hb

variable (hrules : w.view.rules.Proper) (hproper : (Value.object payload).Proper)
include hrules hproper

/-- The rows of a list are keyed by the record that it hangs from where that is known, and by none further down. -/
theorem updateNested_keyed (levels : Nat) (parent : Value) :
    UpdateNesting.Turns (w.KeyedUnder entity payload parent) (w.updateNested levels parent) := by
  induction levels generalizing parent with
  | zero => intro r v ops h; cases h
  | succ levels ih =>
      intro r v ops h
      cases hop : Payload.isOperation v with
      | true => exact .inl ⟨hop, Option.some.inj (updateNested_gives hop h)⟩
      | false =>
          refine .inr ⟨hop, fun hgiven => ?_, updateNested_turned h⟩
          rintro ops rfl part hpart
          unfold updateNested at h
          split at h
          next items =>
            obtain ⟨_, hmany, hops⟩ := map_ok_iff.mp h
            cases hops
            have htold := updateMany_tallied (T := fun _ _ _ => True) hs hrules (fun _ _ _ _ _ => trivial)
              (hgiven.proper hproper) hmany
            obtain ⟨e, item, he, hi, hof⟩ := (updateMany_turns (ih .null) (.inl rfl) hmany).1.part hpart
            exact ⟨htold.keyed hgiven hpart, hof.keyed hp hs he hgiven hi⟩
          next hlist =>
            have hturns : w.Turns (w.KeyedUnder entity payload .null) parent true r v (.object ops) :=
              (updateOne_turns (ih .null) hop h).1
            obtain ⟨e, item, he, hi, hof⟩ := hturns.part hpart
            refine ⟨fun condition _ _ hc => ?_, hof.keyed hp hs he hgiven hi⟩
            -- a single record is looked up by no key
            cases hof with
            | found hlisted =>
                cases v with
                | list items => exact absurd rfl (hlist items)
                | _ => cases hlisted
            | created | changed => cases hc

end

/-- In an update every row of a join table that is connected or changed belongs to a given item, and is looked up by
its whole key. Right under the record that is updated this has the id of the record, unless the item names another
parent. Further down no parent is known. -/
theorem join_rows_keyed (w : Writer) (hrules : w.view.rules.Proper) (hs : w.view.schema.Distinct) {entity : String}
    {payload : Object} (hproper : (Value.object payload).Proper) (hp : w.Plain entity payload) {id : Value}
    {out : Object} (h : w.update entity id payload = .ok out) {key : String} {v : Value} {r : Relation}
    (hkv : (key, v) ∈ out) (hr : w.view.schema.relation? entity key = .ok (some r)) :
    w.HoldsBelow (w.KeyedBy entity payload id) (w.KeyedBy entity payload .null) r v := by
  obtain ⟨e, omitted, he, _, hdrawn⟩ := update_drawn_of_turns (updateNested_keyed hp hs hrules hproper w.levels id) h
  exact hdrawn.keyed hp hs he (fun hm hr => .here hr hm) hkv hr

/-! Posts that are tagged through a join table, and their authors. -/

def tagSchema : Schema := ⟨[
  ("User", .ok ⟨"User", ["id"], [⟨"id", .scalar, "int", false, false, true, false⟩,
      ⟨"posts", .relation, "Post", false, false, false, true⟩],
    [⟨"posts", "Post", .many, [], ["authorId"]⟩]⟩),
  ("Post", .ok ⟨"Post", ["id"], [⟨"id", .scalar, "int", false, false, true, false⟩,
      ⟨"authorId", .scalar, "int", true, false, false, false⟩,
      ⟨"tags", .relation, "PostTag", false, false, false, true⟩],
    [⟨"tags", "PostTag", .many, [], ["postId"]⟩]⟩),
  ("PostTag", .ok ⟨"PostTag", ["postId", "tagId"], [⟨"postId", .scalar, "int", false, false, true, false⟩,
      ⟨"tagId", .scalar, "int", false, false, true, false⟩,
      ⟨"note", .scalar, "string", true, false, false, false⟩], []⟩)]⟩

def tagger : Writer := { view := ⟨tagSchema, ⟨[]⟩, .principal {}⟩ }

def postTags : Relation := ⟨"tags", "PostTag", .many, [], ["postId"]⟩

/-- The condition on the row of a tag of a post. -/
def tagLink (post : Value) : Object := [("postId_tagId", .object [("postId", post), ("tagId", .int 5)])]

def taggedPost : Object := [("tags", .list [.object [("tagId", .int 5)]])]

def taggedElsewhere : Object := [("tags", .list [.object [("postId", .int 2), ("tagId", .int 5)]])]

def tagOperations (post : Value) : Object := [("tags", .object [("connect", .list [.object (tagLink post)])])]

theorem tagSchema_distinct : tagSchema.Distinct := Schema.distinct_of_all (by decide)

theorem taggedPost_plain : tagger.Plain "Post" taggedPost := by
  intro v hn
  cases hn with
  | here _ hm => cases List.mem_singleton.mp hm; rfl
  | inside hr hm _ hn =>
      cases List.mem_singleton.mp hm
      cases hr
      cases hn with
      | here hr | inside hr => cases hr

theorem taggedPost_given {r : Relation} {v : Value} (h : Given tagSchema "Post" taggedPost r v) :
    r = postTags ∧ v = .list [.object [("tagId", .int 5)]] := by
  induction h with
  | here hr hm =>
      cases List.mem_singleton.mp hm
      cases hr
      exact ⟨rfl, rfl⟩
  | inside _ _ hr _ ih =>
      obtain ⟨rfl, _⟩ := ih
      cases hr

/-- The row by which a post is tagged has the id of the post. -/
theorem taggedPost_keyed :
    tagger.view.rules.Proper ∧ tagSchema.Distinct ∧ (Value.object taggedPost).Proper ∧
    tagger.Plain "Post" taggedPost ∧ tagger.update "Post" (.int 1) taggedPost = .ok (tagOperations (.int 1)) ∧
    tagSchema.relation? "Post" "tags" = .ok (some postTags) ∧
    tagSchema.joinKey? postTags = .ok (some ["postId", "tagId"]) ∧
    StaysUnder postTags ["postId", "tagId"] (.int 1) (.object (tagLink (.int 1))) := by
  have hr : tagger.view.rules.Proper := Rules.nil_proper
  have hs := tagSchema_distinct
  have hproper : (Value.object taggedPost).Proper := by decide
  have hp := taggedPost_plain
  have hu : tagger.update "Post" (.int 1) taggedPost = .ok (tagOperations (.int 1)) := rfl
  refine ⟨hr, hs, hproper, hp, hu, rfl, rfl, ?_⟩
  have hparts := join_rows_keyed tagger hr hs hproper hp hu (List.mem_singleton.mpr rfl) rfl
  obtain ⟨hkeyed, _⟩ := hparts _ rfl (.connected (.object (tagLink (.int 1)))) (List.mem_singleton.mpr rfl)
  obtain ⟨v, item, hgiven, hi, _, hstays⟩ := hkeyed _ _ _ rfl rfl rfl rfl
  obtain ⟨_, rfl⟩ := taggedPost_given hgiven
  cases List.mem_singleton.mp hi
  exact hstays (by decide)

def tagModel : Model := ⟨"PostTag", "post_tags", [⟨"postId", .integer, false, false, true, none⟩,
  ⟨"tagId", .integer, false, false, true, none⟩], []⟩

/-- The row of another post is connected to a post where the item names it, and the rows of no post are where a post is
changed in a list of its author. -/
theorem tags_of_other_posts :
    tagger.update "Post" (.int 1) taggedElsewhere = .ok (tagOperations (.int 2)) ∧
    Catalog.Satisfies ⟨[("PostTag", tagModel)]⟩ tagModel default [("postId", .integer 2), ("tagId", .integer 5)]
      (.object (tagLink (.int 2))) ∧
    tagger.update "User" (.int 7) [("posts", .list [.object (("id", .int 3) :: taggedPost)])] =
      .ok [("posts", .object [("upsert", .list [.object [("where", .object [("id", .int 3)]),
        ("create", .object (("id", .int 3) :: tagOperations .null)),
        ("update", .object (tagOperations .null))]])])] := by
  refine ⟨rfl, ⟨_, rfl, by decide⟩, rfl⟩

end Writer

end RecordGraph
