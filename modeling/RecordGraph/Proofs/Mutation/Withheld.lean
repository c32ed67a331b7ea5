import RecordGraph.Proofs.Mutation.Denial
import RecordGraph.Proofs.Mutation.Entries

/-!
# Withheld fields

Of the fields that a client cannot write, those that it does not see and the keys of changed records
reach no body, at any depth. The fields that the system sets are kept out of the record itself only:
a nested body has them if its item does.
-/

namespace RecordGraph

/-- The bodies in a transformed payload of an entity, at any depth, each with its entity. -/
inductive BodyIn (s : Schema) (entity : String) (top : Writer.BodyKind) (out : Object) :
    Writer.BodyKind → String → Value → Prop
  | whole : BodyIn s entity top out top entity (.object out)
  | created {r b} (ho : Occurs s entity out r (.created b)) : BodyIn s entity top out .created r.target b
  | changed {r b} (ho : Occurs s entity out r (.changed b)) : BodyIn s entity top out .changed r.target b

/-- The items in a payload of an entity, at any depth, each with its entity: the payload itself and
those that are nested in it. -/
inductive ItemIn (s : Schema) (entity : String) (payload : Object) : Bool → String → Object → Prop
  | whole : ItemIn s entity payload false entity payload
  | nested {r v item} (h : Given s entity payload r v) (hi : .object item ∈ v.asItems) :
      ItemIn s entity payload true r.target item

/-- Every key of a body is one of its item that is not left out, or names the relation of a foreign
key of the item. -/
def Entity.Covers (e : Entity) (item : Object) (dropped : List String) (body : Object) : Prop :=
  ∀ key ∈ body.keys, (key ∈ item.keys ∧ key ∉ dropped) ∨
    ∃ field r, field ∈ item.keys ∧ e.relationForField? field = some r ∧ r.name = key

namespace Writer

variable {w : Writer} {T : Relation → Value → Value → Prop} {kind : BodyKind} {e : Entity} {A : Prop}
  {entity : String} {payload item body out : Object} {dropped : List String} {r : Relation} {v : Value}

/-- The transformation of a payload, for a new record or for changes. -/
def Transforms (w : Writer) (entity : String) (payload out : Object) : BodyKind → Prop
  | .created => w.create entity payload = .ok out
  | .changed => ∃ id, w.update entity id payload = .ok out
  | .prepared => False

theorem Drawn.covers (h : w.Drawn T kind e A (item.without dropped) body) : e.Covers item dropped body := by
  have hkeys : ∀ {field}, field ∈ (item.without dropped).keys → field ∈ item.keys ∧ field ∉ dropped := by
    intro field hf
    obtain ⟨kv, hkv, rfl⟩ := List.mem_map.mp hf
    have hin := Object.mem_without_iff.mp hkv
    exact ⟨List.mem_map_of_mem hin.1, hin.2⟩
  intro key hkey
  obtain ⟨kv, hkv, rfl⟩ := List.mem_map.mp hkey
  have hm := h.member kv hkv
  obtain ⟨key, v⟩ := kv
  dsimp only at hm ⊢
  cases hm with
  | kept hm | nested hm => exact .inl (hkeys (List.mem_map_of_mem hm))
  | linked _ hf _ hr | cut _ hf hr => exact .inr ⟨_, _, (hkeys hf).1, hr, rfl⟩

/-- A body comes of an item, without what the writer does not see. The record itself lacks the fields
that the system sets, and changes lack the keys. -/
def Stems (w : Writer) (entity : String) (payload : Object) (kind : BodyKind) (target : String) (b : Value) :
    Prop :=
  ∃ e nested item omitted dropped body, b = .object body ∧ w.view.schema.entity target = .ok e ∧
    ItemIn w.view.schema entity payload nested target item ∧ w.view.omitted target = .ok omitted ∧
    omitted ⊆ dropped ∧ (nested = false → w.auditFields ⊆ dropped) ∧ (kind = .changed → e.keys ⊆ dropped) ∧
    e.Covers item dropped body

def PartStems (w : Writer) (entity : String) (payload : Object) (r : Relation) : Part → Prop
  | .created b => w.Stems entity payload .created r.target b
  | .changed b => w.Stems entity payload .changed r.target b
  | .connected _ | .updated _ => True

/-- Operations for a given value have parts that stem from the payload. -/
def StemsUnder (w : Writer) (entity : String) (payload : Object) (r : Relation) (v ops : Value) : Prop :=
  Given w.view.schema entity payload r v → w.HoldsUnder (w.PartStems entity payload) r ops

/-! ## The origin of parts -/

/-- The parts of operations are as asked in one way, and those in their bodies in another. -/
def HoldsBelow (w : Writer) (P Q : Relation → Part → Prop) (r : Relation) (v : Value) : Prop :=
  ∀ ops, v = .object ops → ∀ part ∈ Part.ofOperations ops,
    P r part ∧ ∀ inner, part.body? = some (.object inner) → w.Holds Q r.target inner

/-- A part that comes of one item: a condition on its row, in a list, or a body. -/
inductive PartOf (w : Writer) (T : Relation → Value → Value → Prop) (id : Value) (r : Relation) (e : Entity)
    (item : Object) (listed : Bool) : Part → Prop
  | found {part : Part} {filter : Object} (hl : listed = true) (hs : w.Sought id r e item filter)
      (hc : part.condition? = some (.object filter)) : PartOf w T id r e item listed part
  | created {body : Object} (hb : w.BodyOf T e item .created r.target body) :
      PartOf w T id r e item listed (.created (.object body))
  | changed {body : Object} (hb : w.BodyOf T e item .changed r.target body) :
      PartOf w T id r e item listed (.changed (.object body))

/-- Every part of the operations that a value is turned into comes of one of its items. -/
theorem Turns.part {id : Value} {updating : Bool} {ops : Object} {part : Part}
    (h : w.Turns T id updating r v (.object ops)) (hpart : part ∈ Part.ofOperations ops) :
    ∃ e item, w.view.schema.entity r.target = .ok e ∧ .object item ∈ v.asItems ∧
      w.PartOf T id r e item v.isList part := by
  obtain ⟨⟨op, x⟩, hx, hpart⟩ := List.mem_flatMap.mp hpart
  cases h with
  | many he h =>
      obtain ⟨entries, rfl, _, hentries⟩ := h op x hx
      obtain ⟨entry, hentry, hpart⟩ := List.mem_flatMap.mp hpart
      obtain ⟨item, hi, hentry⟩ := hentries entry hentry
      refine ⟨_, item, he, hi, ?_⟩
      cases hentry with
      | create hb => cases List.mem_singleton.mp hpart; exact .created hb
      | connect hs => cases List.mem_singleton.mp hpart; exact .found rfl hs rfl
      | either hs hb =>
          rcases List.mem_pair.mp hpart with rfl | rfl
          · exact .found rfl hs rfl
          · exact .created hb
      | upsert hs hb hc =>
          rw [Part.ofItem_upsert] at hpart
          simp only [List.mem_cons, List.not_mem_nil, or_false] at hpart
          rcases hpart with rfl | rfl | rfl
          · exact .found rfl hs rfl
          · exact .created hb
          · exact .changed hc
      | update hs hc =>
          rcases List.mem_pair.mp hpart with rfl | rfl
          · exact .found rfl hs rfl
          · exact .changed hc
  | @record item _ _ he h =>
      refine ⟨_, item, he, List.mem_singleton.mpr rfl, ?_⟩
      cases h op x hx with
      | create _ hb => cases List.mem_singleton.mp hpart; exact .created hb
      | upsert _ hb hc =>
          simp only [Value.asItems, List.flatMap_cons, List.flatMap_nil, List.append_nil] at hpart
          rcases Part.mem_ofItem_upsert hpart with rfl | ⟨_, rfl⟩
          · exact .created hb
          · exact .changed hc

section
variable (hp : w.Plain entity payload)
include hp

/-- What stands in a drawn body is as asked if what stands in its item is, and what links by a foreign key. -/
theorem Drawn.below {P Q : Relation → Part → Prop} {target key : String}
    (he : w.view.schema.entity target = .ok e)
    (hitem : ∀ {key v r}, (key, v) ∈ item → w.view.schema.relation? target key = .ok (some r) →
      Given w.view.schema entity payload r v)
    (hlinked : ∀ {field r' r filter}, e.relationForField? field = some r' → e.relation? r'.name = some r →
      P r (.connected (.object filter)))
    (h : w.Drawn (fun r v ops => Given w.view.schema entity payload r v → w.HoldsBelow P Q r ops) kind e A
      (item.without dropped) body)
    (hkv : (key, v) ∈ body) (hr : w.view.schema.relation? target key = .ok (some r)) : w.HoldsBelow P Q r v := by
  have hrelation : e.relation? key = some r := by
    rw [Schema.relation?_of_entity he] at hr
    exact Except.ok.inj hr
  have hm := h.member _ hkv
  dsimp only at hm
  cases hm with
  | kept hm =>
      have hgiven := hitem (Object.mem_of_mem_without hm) hr
      rintro ops rfl part hpart
      rw [Part.ofOperations_eq_nil (hp.given hgiven).1] at hpart
      cases hpart
  | nested hm hr' ht =>
      obtain rfl := Option.some.inj (hr'.symm.trans hrelation)
      exact ht (hitem (Object.mem_of_mem_without hm) hr)
  | linked _ _ _ hf hc =>
      obtain ⟨_, filter, _, rfl⟩ := connect_guarded hc
      rintro ops he part hpart
      cases he
      cases List.mem_singleton.mp hpart
      exact ⟨hlinked hf hrelation, nofun⟩
  | cut =>
      rintro ops he part hpart
      cases he
      cases hpart

/-- What stands in a drawn body stems from the payload if what stands in its item does. -/
theorem Drawn.holds {target : String} (he : w.view.schema.entity target = .ok e)
    (hitem : ∀ {key v r}, (key, v) ∈ item → w.view.schema.relation? target key = .ok (some r) →
      Given w.view.schema entity payload r v)
    (h : w.Drawn (w.StemsUnder entity payload) kind e A (item.without dropped) body) :
    w.Holds (w.PartStems entity payload) target body :=
  holds_iff.mpr fun _ _ _ hkv hr => h.below hp he hitem (fun _ _ => trivial) hkv hr

theorem BodyOf.stems (h : w.BodyOf (w.StemsUnder entity payload) e item kind r.target body)
    (he : w.view.schema.entity r.target = .ok e) (hgiven : Given w.view.schema entity payload r v)
    (hi : .object item ∈ v.asItems) :
    w.Stems entity payload kind r.target (.object body) ∧
      ∀ inner, some (Value.object body) = some (.object inner) →
        w.Holds (w.PartStems entity payload) r.target inner := by
  obtain ⟨omitted, dropped, ho, hsub, hkeys, hdrawn⟩ := h
  refine ⟨⟨e, true, item, omitted, dropped, body, rfl, he, .nested hgiven hi, ho, hsub, nofun, hkeys,
    hdrawn.covers⟩, ?_⟩
  rintro _ ⟨⟩
  exact hdrawn.holds hp he fun hm hr => .inside hgiven hi hr hm

/-- Operations stem from the payload if those further down do. -/
theorem turns_stem {id : Value} {updating : Bool} {ops : Value}
    (h : w.Turns (w.StemsUnder entity payload) id updating r v ops) : w.StemsUnder entity payload r v ops := by
  rintro hgiven ops rfl part hpart
  obtain ⟨e, item, he, hi, hpart⟩ := h.part hpart
  cases hpart with
  | @found part filter _ _ hc =>
      cases part with
      | connected | updated => exact ⟨trivial, nofun⟩
      | created | changed => cases hc
  | created hb | changed hb => exact hb.stems hp he hgiven hi

theorem Transforms.drawn {top : BodyKind} (h : w.Transforms entity payload out top) :
    ∃ e omitted dropped, w.view.schema.entity entity = .ok e ∧ w.view.omitted entity = .ok omitted ∧
      omitted ⊆ dropped ∧ w.auditFields ⊆ dropped ∧ (top = .changed → e.keys ⊆ dropped) ∧
      w.Drawn (w.StemsUnder entity payload) top e (Regular e payload) (payload.without dropped) out := by
  cases top with
  | prepared => exact h.elim
  | created =>
      have hT : ∀ r v ops, Payload.isOperation v = false →
          w.Turns (w.StemsUnder entity payload) .null false r v ops → w.StemsUnder entity payload r v ops :=
        fun _ _ _ _ => turns_stem hp
      obtain ⟨e, omitted, he, ho, hdrawn⟩ := create_drawn hT h
      exact ⟨e, omitted, _, he, ho, List.subset_append_left _ _, List.subset_append_right _ _, nofun, hdrawn⟩
  | changed =>
      obtain ⟨id, h⟩ := h
      obtain ⟨e, omitted, he, ho, hdrawn⟩ := update_drawn (fun _ _ _ _ => turns_stem hp) h
      refine ⟨e, omitted, _, he, ho, ?_, ?_, fun _ => List.subset_append_right _ _, hdrawn⟩
      · exact List.Subset.trans (List.subset_append_left _ _) (List.subset_append_left _ _)
      · exact List.Subset.trans (List.subset_append_right _ _) (List.subset_append_left _ _)

/-- Every body in a transformed payload comes of an item of the payload. -/
theorem bodies_stem {top : BodyKind} (h : w.Transforms entity payload out top) {target : String} {b : Value}
    (hb : BodyIn w.view.schema entity top out kind target b) : w.Stems entity payload kind target b := by
  obtain ⟨e, omitted, dropped, he, ho, hsub, haudit, hkeys, hdrawn⟩ := h.drawn hp
  have hholds := hdrawn.holds hp he fun hm hr => .here hr hm
  cases hb with
  | whole => exact ⟨e, false, payload, omitted, dropped, out, rfl, he, .whole, ho, hsub, fun _ => haudit, hkeys,
      hdrawn.covers⟩
  | created hpart | changed hpart => exact hholds _ _ hpart

end

/-! ## What is kept out -/

/-- No body has a scalar field that its writer does not see. -/
theorem omitted_fields_unwritten (w : Writer) {entity : String} {payload out : Object} {top : BodyKind}
    (hp : w.Plain entity payload) (h : w.Transforms entity payload out top)
    {kind : BodyKind} {target : String} {b : Value}
    (hb : BodyIn w.view.schema entity top out kind target b) :
    ∃ e omitted, ∃ body : Object, w.view.schema.entity target = .ok e ∧ w.view.omitted target = .ok omitted ∧
      b = .object body ∧ ∀ field ∈ omitted, e.relation? field = none → field ∉ body.keys := by
  obtain ⟨e, _, item, omitted, dropped, body, rfl, he, _, ho, hsub, _, _, hcovers⟩ := bodies_stem hp h hb
  refine ⟨e, omitted, body, he, ho, rfl, fun field hfield hscalar hkey => ?_⟩
  rcases hcovers field hkey with ⟨_, hkept⟩ | ⟨_, r, _, hr, rfl⟩
  · exact hkept (hsub hfield)
  · have hrel := Entity.relation?_of_foreign hr
    rw [hscalar] at hrel
    cases hrel

/-- No changes have a key of the entity that they are changes of. -/
theorem keys_unchanged (w : Writer) (hs : w.view.schema.ScalarsApart) {entity : String} {id : Value}
    {payload out : Object} (hp : w.Plain entity payload) (h : w.update entity id payload = .ok out)
    {target : String} {b : Value} (hb : BodyIn w.view.schema entity .changed out .changed target b) :
    ∃ e, ∃ body : Object, w.view.schema.entity target = .ok e ∧ b = .object body ∧
      ∀ f ∈ e.scalars, f.name ∈ e.keys → f.name ∉ body.keys := by
  have htransforms : w.Transforms entity payload out .changed := ⟨id, h⟩
  obtain ⟨e, _, item, _, dropped, body, rfl, he, _, _, _, _, hkeys, hcovers⟩ :=
    bodies_stem hp htransforms hb
  refine ⟨e, body, he, rfl, fun f hf hfkey hkey => ?_⟩
  rcases hcovers f.name hkey with ⟨_, hkept⟩ | ⟨_, r, _, hr, hname⟩
  · exact hkept (hkeys rfl hfkey)
  · have hrel := Entity.relation?_of_foreign hr
    rw [hname, hs target e he f hf] at hrel
    cases hrel

/-- A field that the system sets is in a body only if a nested item has it, or if it is the name of a
relation and an item has the foreign key of that relation. -/
theorem audit_fields_given (w : Writer) {entity : String} {payload out : Object} {top : BodyKind}
    (hp : w.Plain entity payload) (h : w.Transforms entity payload out top)
    {kind : BodyKind} {target : String} {b : Value}
    (hb : BodyIn w.view.schema entity top out kind target b) :
    ∃ e, ∃ body : Object, w.view.schema.entity target = .ok e ∧ b = .object body ∧
      ∀ field ∈ w.auditFields, field ∈ body.keys →
        (∃ item, ItemIn w.view.schema entity payload true target item ∧ field ∈ item.keys) ∨
        ∃ nested item key r, ItemIn w.view.schema entity payload nested target item ∧ key ∈ item.keys ∧
          e.relationForField? key = some r ∧ r.name = field := by
  obtain ⟨e, nested, item, _, dropped, body, rfl, he, hitem, _, _, haudit, _, hcovers⟩ := bodies_stem hp h hb
  refine ⟨e, body, he, rfl, fun field hfield hkey => ?_⟩
  rcases hcovers field hkey with ⟨hgiven, hkept⟩ | ⟨key, r, hk, hr, hname⟩
  · cases nested with
    | true => exact .inl ⟨item, hitem, hgiven⟩
    | false => exact absurd (haudit rfl hfield) hkept
  · exact .inr ⟨nested, item, key, r, hitem, hk, hr, hname⟩

/-! A shelf of posts, written by a user who does not see what is secret about a post. -/

def shelfSchema : Schema := ⟨[
  ("Shelf", .ok ⟨"Shelf", ["id"], [⟨"id", .scalar, "int", false, false, true, false⟩,
      ⟨"name", .scalar, "string", false, false, false, false⟩,
      ⟨"posts", .relation, "Post", false, false, false, true⟩],
    [⟨"posts", "Post", .many, [], ["shelfId"]⟩]⟩),
  ("Post", .ok ⟨"Post", ["id"], [⟨"id", .scalar, "int", false, false, true, false⟩,
      ⟨"title", .scalar, "string", false, false, false, false⟩,
      ⟨"secret", .scalar, "string", true, false, false, false⟩,
      ⟨"createdAt", .scalar, "datetime", true, false, false, false⟩,
      ⟨"shelfId", .scalar, "int", true, false, false, false⟩], []⟩)]⟩

def shelfWriter : Writer :=
  { view := ⟨shelfSchema, ⟨[("Post", { omitted := some fun _ => .ok (.list [.text "secret"]) })]⟩,
      .principal {}⟩ }

def shelfPosts : Relation := ⟨"posts", "Post", .many, [], ["shelfId"]⟩

def datedPost : Object :=
  [("id", .int 3), ("title", .text "Desk"), ("secret", .text "drawer"), ("createdAt", .text "2020-01-01")]

def shelf : Object := [("name", .text "Wood"), ("posts", .list [.object datedPost])]

/-- The body of a new post. -/
def shelvedPost : Object :=
  [("id", .int 3), ("title", .text "Desk"), ("createdAt", .text "2020-01-01")]

def newShelf : Object := [("name", .text "Wood"), ("posts", .object [("connectOrCreate", .list [.object
  [("where", .object [("id", .int 3)]), ("create", .object shelvedPost)]])])]

/-- The body of the changes to a post. -/
def postChanges : Object := [("title", .text "Desk"), ("createdAt", .text "2020-01-01")]

def changedShelf : Object := [("name", .text "Wood"), ("posts", .object [("upsert", .list [.object
  [("where", .object [("id", .int 3)]), ("create", .object shelvedPost),
    ("update", .object postChanges)]])])]

theorem shelf_plain : shelfWriter.Plain "Shelf" shelf := by
  intro v hn
  cases hn with
  | here hr hm =>
      rcases List.mem_pair.mp hm with hm | hm <;> cases hm
      · cases hr
      · rfl
  | inside hr hm hi hn =>
      rcases List.mem_pair.mp hm with hm | hm <;> cases hm
      · cases hr
      · cases hr
        cases hn with
        | here hr | inside hr => cases hr

theorem shelvedPost_created : BodyIn shelfSchema "Shelf" .created newShelf .created "Post" (.object shelvedPost) :=
  .created (r := shelfPosts)
    (.here rfl (List.mem_pair.mpr (.inr rfl)) (List.mem_pair.mpr (.inr rfl)))

theorem postChanges_changed :
    BodyIn shelfSchema "Shelf" .changed changedShelf .changed "Post" (.object postChanges) := by
  refine .changed (r := shelfPosts) (.here rfl (List.mem_pair.mpr (.inr rfl)) ?_)
  simp [Part.ofOperations, Value.asItems, Part.ofItem_upsert]

theorem shelfSchema_apart : shelfSchema.ScalarsApart := Schema.scalarsApart_of_all (by decide)

/-- The secret of a new post on the shelf is left out. -/
theorem shelvedPost_discreet :
    shelfWriter.Plain "Shelf" shelf ∧ shelfWriter.create "Shelf" shelf = .ok newShelf ∧
    BodyIn shelfSchema "Shelf" .created newShelf .created "Post" (.object shelvedPost) ∧
    ∃ e omitted, ∃ body : Object, shelfSchema.entity "Post" = .ok e ∧
      shelfWriter.view.omitted "Post" = .ok omitted ∧ Value.object shelvedPost = .object body ∧
      ∀ field ∈ omitted, e.relation? field = none → field ∉ body.keys := by
  have hc : shelfWriter.Transforms "Shelf" shelf newShelf .created := rfl
  exact ⟨shelf_plain, hc, shelvedPost_created,
    omitted_fields_unwritten shelfWriter shelf_plain hc shelvedPost_created⟩

/-- The key of a post on the shelf is not among its changes. -/
theorem postChanges_keyless :
    shelfSchema.ScalarsApart ∧ shelfWriter.Plain "Shelf" shelf ∧
    shelfWriter.update "Shelf" (.int 1) shelf = .ok changedShelf ∧
    BodyIn shelfSchema "Shelf" .changed changedShelf .changed "Post" (.object postChanges) ∧
    ∃ e, ∃ body : Object, shelfSchema.entity "Post" = .ok e ∧ Value.object postChanges = .object body ∧
      ∀ f ∈ e.scalars, f.name ∈ e.keys → f.name ∉ body.keys := by
  have hu : shelfWriter.update "Shelf" (.int 1) shelf = .ok changedShelf := rfl
  exact ⟨shelfSchema_apart, shelf_plain, hu, postChanges_changed,
    keys_unchanged shelfWriter shelfSchema_apart shelf_plain hu postChanges_changed⟩

/-- What the system sets on the shelf itself was given with a post. -/
theorem shelvedPost_given :
    shelfWriter.Plain "Shelf" shelf ∧ shelfWriter.create "Shelf" shelf = .ok newShelf ∧
    BodyIn shelfSchema "Shelf" .created newShelf .created "Post" (.object shelvedPost) ∧
    ∃ e, ∃ body : Object, shelfSchema.entity "Post" = .ok e ∧ Value.object shelvedPost = .object body ∧
      ∀ field ∈ shelfWriter.auditFields, field ∈ body.keys →
        (∃ item, ItemIn shelfSchema "Shelf" shelf true "Post" item ∧ field ∈ item.keys) ∨
        ∃ nested item key r, ItemIn shelfSchema "Shelf" shelf nested "Post" item ∧ key ∈ item.keys ∧
          e.relationForField? key = some r ∧ r.name = field := by
  have hc : shelfWriter.Transforms "Shelf" shelf newShelf .created := rfl
  exact ⟨shelf_plain, hc, shelvedPost_created,
    audit_fields_given shelfWriter shelf_plain hc shelvedPost_created⟩

/-- A client sets the time at which a post was created, by nesting it. -/
theorem shelvedPost_dated :
    shelfWriter.Plain "Shelf" shelf ∧ shelfWriter.create "Shelf" shelf = .ok newShelf ∧
    BodyIn shelfSchema "Shelf" .created newShelf .created "Post" (.object shelvedPost) ∧
    "createdAt" ∈ shelfWriter.auditFields ∧ "createdAt" ∈ shelvedPost.keys :=
  ⟨shelf_plain, rfl, shelvedPost_created, by decide, by decide⟩

end Writer

end RecordGraph
