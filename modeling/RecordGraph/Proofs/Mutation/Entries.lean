import RecordGraph.Proofs.Mutation.Lists
import RecordGraph.Proofs.Mutation.Origin

/-!
# The entries of operations

What the value of a relation is turned into: for each item of a list a body, the condition that finds
its row, or both; for a single record its bodies. Bodies lack the fields that the writer does not see,
changes the keys of the entity, too.
-/

namespace RecordGraph.Writer

section
variable (w : Writer) (T : Relation → Value → Value → Prop) (id : Value) (updating : Bool) (r : Relation)
  (e : Entity) (item : Object)

/-- What is assumed of an item where its body is said to be turned throughout. -/
def Regular : Prop := e.Apart ∧ item.keys.Nodup

/-- A body for a record of an entity, drawn from an item without the fields that are not seen. -/
def BodyOf (kind : BodyKind) (entity : String) (body : Object) : Prop :=
  ∃ omitted dropped, w.view.omitted entity = .ok omitted ∧ omitted ⊆ dropped ∧
    (kind = .changed → e.keys ⊆ dropped) ∧
    w.Drawn T kind e (Regular e item) (item.without dropped) body

/-- A condition that finds the row of an item, joined to a filter of the writer. The parent is the
record that is updated; further down it is not known. -/
def Sought (filter : Object) : Prop :=
  ∃ prepared joinKey parent condition action guard,
    (∀ kv ∈ prepared, e.relation? kv.1 = none → kv ∈ item) ∧
    (joinKey = none ∨ w.view.schema.joinKey? r = .ok joinKey) ∧ (parent = id ∨ parent = .null) ∧
    itemWhere r e.keys joinKey parent prepared = .ok condition ∧
    w.view.filterFor action r.target = .ok guard ∧ filter = Guard.merge condition guard

/-- An entry of an operation on the rows of a list, for one item. -/
inductive ListEntry : String → Value → Prop
  | create {body} (hb : w.BodyOf T e item .created r.target body) : ListEntry "create" (.object body)
  | connect {filter} (hs : w.Sought id r e item filter) : ListEntry "connect" (.object filter)
  | either {filter body} (hs : w.Sought id r e item filter)
      (hb : w.BodyOf T e item .created r.target body) :
      ListEntry "connectOrCreate" (.object [("where", .object filter), ("create", .object body)])
  | upsert {filter body changes} (hs : w.Sought id r e item filter)
      (hb : w.BodyOf T e item .created r.target body) (hc : w.BodyOf T e item .changed r.target changes) :
      ListEntry "upsert"
        (.object [("where", .object filter), ("create", .object body), ("update", .object changes)])
  | update {filter changes} (hs : w.Sought id r e item filter)
      (hc : w.BodyOf T e item .changed r.target changes) :
      ListEntry "update" (.object [("where", .object filter), ("data", .object changes)])

/-- The operation for a single record. -/
inductive RecordEntry : String → Value → Prop
  | create {body} (hu : updating = false) (hb : w.BodyOf T e item .created r.target body) :
      RecordEntry "create" (.object body)
  | upsert {creating changing : Bool} {body changes} (hu : updating = true)
      (hb : w.BodyOf T e item .created r.target body) (hc : w.BodyOf T e item .changed r.target changes) :
      RecordEntry "upsert" (.object ((if creating then [("create", .object body)] else [])
        ++ (if changing then [("update", .object changes)] else [])))

/-- The operations that the value of a relation is turned into. -/
inductive Turns : Value → Value → Prop
  | many {items ops e} (he : w.view.schema.entity r.target = .ok e)
      (h : ∀ op x, (op, x) ∈ ops → ∃ entries, x = .list entries ∧ entries ≠ [] ∧ ∀ entry ∈ entries,
        ∃ item, .object item ∈ items ∧ w.ListEntry T id r e item op entry) :
      Turns (.list items) (.object ops)
  | record {item ops e} (he : w.view.schema.entity r.target = .ok e)
      (h : ∀ op x, (op, x) ∈ ops → w.RecordEntry T updating r e item op x) :
      Turns (.object item) (.object ops)

end

variable {w : Writer} {T : Relation → Value → Value → Prop} {id : Value} {updating : Bool} {r : Relation}
  {e : Entity} {entity path : String} {item body next out : Object} {key : String} {v ops : Value}

theorem Regular.without {dropped : List String} (h : Regular e item) : (item.without dropped).keys.Nodup :=
  Object.nodup_keys_without h.2

theorem entity_unique {e' : Entity} (he : w.view.schema.entity entity = .ok e)
    (he' : w.view.schema.entity entity = .ok e') : e' = e := by
  rw [he] at he'
  exact (Except.ok.inj he').symm

theorem keys_of_entity {keys : List String} (he : w.view.schema.entity entity = .ok e)
    (h : w.view.schema.keys entity = .ok keys) : keys = e.keys := by
  obtain ⟨e', he', rfl⟩ := map_ok_iff.mp h
  rw [entity_unique he he']

/-- The key of a join table is the whole key of its entity, and has the back-references. -/
theorem joinKey_some {s : Schema} {names : List String} (h : s.joinKey? r = .ok (some names)) :
    s.keys r.target = .ok names ∧ 1 < names.length ∧ r.references.headD "" ∈ names := by
  unfold Schema.joinKey? at h
  split at h
  next => cases pure_ok_iff.mp h
  next hempty =>
    obtain ⟨keys, hkeys, h⟩ := bind_ok_iff.mp h
    obtain ⟨hboth, he⟩ := Option.ite_none_right_eq_some.mp (pure_ok_iff.mp h)
    cases he
    refine ⟨hkeys, hboth.1, ?_⟩
    cases hr : r.references with
    | nil => simp [hr] at hempty
    | cons first rest => simpa using List.all_eq_true.mp hboth.2 first (by simp [hr])

theorem checkedItem_entity {given : Value} (h : w.checkedItem entity path given = .ok item) :
    ∃ e, w.view.schema.entity entity = .ok e := by
  unfold checkedItem at h
  split at h
  · obtain ⟨e, he, _⟩ := bind_ok_iff.mp h
    exact ⟨e, he⟩
  · cases h

theorem Turns.ofMembers {items : List Value} {members : List (String × List Value)}
    (he : w.view.schema.entity r.target = .ok e)
    (h : ∀ m ∈ members, ∀ entry ∈ m.2,
      ∃ item, .object item ∈ items ∧ w.ListEntry T id r e item m.1 entry) :
    w.Turns T id updating r (.list items)
      (.object (members.flatMap fun m => Placement.member m.1 m.2)) := by
  refine .many he fun op x hx => ?_
  obtain ⟨m, hm, hx⟩ := List.mem_flatMap.mp hx
  unfold Placement.member at hx
  split at hx
  next => cases hx
  next hne =>
    cases List.mem_singleton.mp hx
    exact ⟨_, rfl, by simpa using hne, h m hm⟩

theorem turned_ofMembers {members : List (String × List Value)}
    (h : ∀ m ∈ members, m.1 ∈ Payload.operations) :
    Payload.Turned (.object (members.flatMap fun m => Placement.member m.1 m.2)) := by
  have hall : ∀ kv ∈ members.flatMap fun m => Placement.member m.1 m.2, kv.1 ∈ Payload.operations := by
    intro kv hkv
    obtain ⟨m, hm, hkv⟩ := List.mem_flatMap.mp hkv
    exact Placement.mem_member hkv ▸ h m hm
  cases hops : members.flatMap fun m => Placement.member m.1 m.2 with
  | nil => exact .inl rfl
  | cons kv rest =>
      exact .inr (isOperation_of_mem List.mem_cons_self (hall kv (hops ▸ List.mem_cons_self)))

/-! ## Created records -/

/-- A nesting that turns values as told. -/
def Nesting.Turns (T : Relation → Value → Value → Prop) (nesting : Nesting) : Prop :=
  ∀ r v path ops, nesting r v path = .ok ops → Yields T r v ops

section
variable {nesting : Nesting} (hn : nesting.Turns T)
include hn

theorem createItem_drawn {A : Prop} (hA : A → item.keys.Nodup)
    (he : w.view.schema.entity entity = .ok e) (h : w.createItem nesting entity path item = .ok out) :
    w.Drawn T .created e A item out := by
  obtain ⟨e', he', h⟩ := bind_ok_iff.mp h
  rw [entity_unique he he'] at h
  refine drawn_of_keys hA (fun hstep => ?_) h
  refine (createMember_treats hstep).step (fun r ops => hn r _ _ ops) fun hkept _ => ?_
  exact hkept.2.imp_right .inl

/-- The entries of a placement. -/
def Placement.Placed (w : Writer) (T : Relation → Value → Value → Prop) (id : Value) (r : Relation)
    (e : Entity) (item : Object) : Placement → Prop
  | .create body => w.BodyOf T e item .created r.target body
  | .connect filter => w.Sought id r e item filter
  | .connectOrCreate filter body =>
      w.Sought id r e item filter ∧ w.BodyOf T e item .created r.target body

theorem placeItem_placed {omitted : List String} {joined : Bool} {given : Value} {p : Placement}
    (he : w.view.schema.entity r.target = .ok e) (ho : w.view.omitted r.target = .ok omitted)
    (h : w.placeItem nesting r path e.keys joined (omitted ++ r.references) given = .ok p) :
    ∃ item, given = .object item ∧ p.Placed w T id r e item := by
  obtain ⟨item, hitem, h⟩ := bind_ok_iff.mp h
  refine ⟨item, checkedItem_ok hitem, ?_⟩
  have hbody : ∀ {out}, w.createItem nesting r.target path
      (item.without (omitted ++ r.references)) = .ok out → w.BodyOf T e item .created r.target out :=
    fun hout => ⟨omitted, _, ho, List.subset_append_left _ _, nofun,
      createItem_drawn hn Regular.without he hout⟩
  have hsought : ∀ {condition filter}, keyWhere e.keys item = .ok condition →
      w.guarded r.target condition = .ok filter → w.Sought id r e item filter := by
    intro condition filter hc hf
    obtain ⟨guard, hguard, hf⟩ := bind_ok_iff.mp hf
    exact ⟨item, none, id, condition, .read, guard, fun _ hkv _ => hkv, .inl rfl, .inl rfl, hc, hguard,
      (pure_ok_iff.mp hf).symm⟩
  dsimp only at h
  split at h
  · obtain ⟨_, _, h⟩ := bind_ok_iff.mp h
    obtain ⟨body, hb, h⟩ := bind_ok_iff.mp h
    exact pure_ok_iff.mp h ▸ hbody hb
  · split at h
    · obtain ⟨condition, hc, h⟩ := bind_ok_iff.mp h
      obtain ⟨filter, hf, h⟩ := bind_ok_iff.mp h
      exact pure_ok_iff.mp h ▸ hsought hc hf
    · obtain ⟨_, _, h⟩ := bind_ok_iff.mp h
      obtain ⟨condition, hc, h⟩ := bind_ok_iff.mp h
      obtain ⟨filter, hf, h⟩ := bind_ok_iff.mp h
      obtain ⟨body, hb, h⟩ := bind_ok_iff.mp h
      exact pure_ok_iff.mp h ▸ ⟨hsought hc hf, hbody hb⟩

theorem createMany_turns {items : List Value} (h : w.createMany nesting r items path = .ok ops) :
    w.Turns T id updating r (.list items) ops := by
  obtain ⟨keys, hkeys, h⟩ := bind_ok_iff.mp h
  obtain ⟨joinKey, _, h⟩ := bind_ok_iff.mp h
  obtain ⟨omitted, ho, h⟩ := bind_ok_iff.mp h
  obtain ⟨ps, hps, hout⟩ := bind_ok_iff.mp h
  obtain ⟨e, he, rfl⟩ := map_ok_iff.mp hkeys
  have hplaced : ∀ p ∈ ps, ∃ item, .object item ∈ items ∧ p.Placed w T id r e item := by
    intro p hp
    obtain ⟨given, hin, hp⟩ := mem_of_mapM_ok hps hp
    obtain ⟨item, rfl, hp⟩ := placeItem_placed hn he ho hp
    exact ⟨item, hin, hp⟩
  obtain rfl := pure_ok_iff.mp hout
  have hops : Placement.operations ps =
      [("create", ps.filterMap Placement.created?), ("connect", ps.filterMap Placement.connected?),
        ("connectOrCreate", ps.filterMap Placement.either?)].flatMap
          fun m => Placement.member m.1 m.2 := by
    simp [Placement.operations]
  rw [hops]
  refine .ofMembers he fun m hm entry hentry => ?_
  simp only [List.mem_cons, List.not_mem_nil, or_false] at hm
  rcases hm with rfl | rfl | rfl <;> obtain ⟨p, hp, hentry⟩ := List.mem_filterMap.mp hentry <;>
    obtain ⟨item, hin, hplaced⟩ := hplaced p hp <;> refine ⟨item, hin, ?_⟩
  · cases p with
    | create body => cases hentry; exact .create hplaced
    | connect | connectOrCreate => cases hentry
  · cases p with
    | connect filter => cases hentry; exact .connect hplaced
    | create | connectOrCreate => cases hentry
  · cases p with
    | connectOrCreate filter body => cases hentry; exact .either hplaced.1 hplaced.2
    | create | connect => cases hentry

theorem createOne_turns (hplain : Payload.isOperation v = false)
    (h : w.createOne nesting r v path = .ok ops) : w.Turns T id false r v ops := by
  unfold createOne at h
  rw [hplain, if_neg Bool.false_ne_true] at h
  obtain ⟨_, _, h⟩ := bind_ok_iff.mp h
  obtain ⟨omitted, ho, h⟩ := bind_ok_iff.mp h
  cases v with
  | object item =>
      obtain ⟨checked, hc, h⟩ := bind_ok_iff.mp h
      obtain ⟨e, he⟩ := checkedItem_entity hc
      obtain rfl := Value.object.inj (checkedItem_ok hc)
      obtain ⟨body, hb, h⟩ := bind_ok_iff.mp h
      obtain rfl := pure_ok_iff.mp h
      refine .record he fun op x hx => ?_
      cases List.mem_singleton.mp hx
      exact .create rfl ⟨omitted, omitted, ho, List.Subset.refl _, nofun,
        createItem_drawn hn Regular.without he hb⟩
  | _ => simp [throw_ok_iff] at h

end

/-- What the values of relations are turned into is as told for so many levels if that follows from what is told for one
level less. -/
theorem createNested_turns_at {U : Nat → Relation → Value → Value → Prop}
    (hU : ∀ levels r v ops, Payload.isOperation v = false → w.Turns (U levels) id false r v ops → U (levels + 1) r v ops)
    (levels : Nat) : Nesting.Turns (U levels) (w.createNested levels) := by
  induction levels with
  | zero => intro r v path ops h; cases h
  | succ levels ih =>
      intro r v path ops h
      cases hop : Payload.isOperation v with
      | true =>
          rw [createNested_operation hop] at h
          exact .inl ⟨hop, (pure_ok_iff.mp h).symm⟩
      | false =>
          refine .inr ⟨hop, hU _ _ _ _ hop ?_, createNested_turned h⟩
          rw [createNested] at h
          dsimp only at h
          split at h
          · exact createMany_turns ih h
          · exact createOne_turns ih hop h

/-- The body of a new record is drawn from its payload, whatever the relations are turned into. -/
theorem create_drawn_of_turns (hn : Nesting.Turns T (w.createNested w.levels)) {payload : Object}
    (h : w.create entity payload = .ok out) :
    ∃ e omitted, w.view.schema.entity entity = .ok e ∧ w.view.omitted entity = .ok omitted ∧
      w.Drawn T .created e (Regular e payload) (payload.without (omitted ++ w.auditFields)) out := by
  obtain ⟨stripped, hst, h⟩ := bind_ok_iff.mp h
  obtain ⟨e, he, h⟩ := bind_ok_iff.mp h
  obtain ⟨omitted, ho, hst⟩ := bind_ok_iff.mp hst
  obtain rfl := pure_ok_iff.mp hst
  refine ⟨e, omitted, he, ho, drawn_of_keys Regular.without (fun hstep => ?_) h⟩
  exact (createTopMember_treats hstep).2.step (fun r ops => hn r _ _ ops) fun hkept ha => hkept.flat ha.1

section
variable (hT : ∀ r v ops, Payload.isOperation v = false → w.Turns T id false r v ops → T r v ops)
include hT

theorem createNested_turns (levels : Nat) : Nesting.Turns T (w.createNested levels) :=
  createNested_turns_at (U := fun _ => T) (fun _ => hT) levels

/-- The body of a new record, without the fields that the system sets. -/
theorem create_drawn {payload : Object} (h : w.create entity payload = .ok out) :
    ∃ e omitted, w.view.schema.entity entity = .ok e ∧ w.view.omitted entity = .ok omitted ∧
      w.Drawn T .created e (Regular e payload) (payload.without (omitted ++ w.auditFields)) out :=
  create_drawn_of_turns (createNested_turns hT _) h

end

/-! ## Updated records -/

/-- A nesting that turns values as told, unless there is nothing to do. -/
def UpdateNesting.Turns (T : Relation → Value → Value → Prop) (nesting : UpdateNesting) : Prop :=
  ∀ r v ops, nesting r v = .ok (some ops) → Yields T r v ops

section
variable {nesting : UpdateNesting} (hn : nesting.Turns T)
include hn

theorem updateItem_drawn {A : Prop} (hA : A → item.keys.Nodup)
    (he : w.view.schema.entity entity = .ok e) (h : w.updateItem nesting entity item = .ok out) :
    w.Drawn T .prepared e A item out := by
  obtain ⟨f, h, hf⟩ := updateItem_treats he h
  refine drawn_of_members hA (fun _ hstep => ?_) h
  exact (hf _ _ _ hstep).step (fun r ops => hn r _ ops) fun hkept _ => hkept.imp_right .inl

end

theorem bodyOf_prepared (updating : Bool) {prepared : Object} {omitted dropped : List String}
    (he : w.view.schema.entity entity = .ok e) (ho : w.view.omitted entity = .ok omitted)
    (hsub : omitted ⊆ dropped) (hkeys : updating = true → e.keys ⊆ dropped)
    (hp : w.Drawn T .prepared e (Regular e item) item prepared)
    (h : w.linkForeignKeys entity updating (prepared.without dropped) = .ok out) :
    w.BodyOf T e item (if updating then .changed else .created) entity out := by
  refine ⟨omitted, dropped, ho, hsub, fun hk => hkeys ?_, linkForeignKeys_drawn he rfl hp.without h⟩
  cases updating with
  | true => rfl
  | false => cases hk

/-- The row of an item whose relations are turned is found as that of the item. -/
theorem Drawn.sought {A : Prop} {prepared condition guard : Object} {joinKey : Option (List String)}
    {parent : Value} {action : Action} (hp : w.Drawn T .prepared e A item prepared)
    (hj : w.view.schema.joinKey? r = .ok joinKey) (hparent : parent = id ∨ parent = .null)
    (hc : itemWhere r e.keys joinKey parent prepared = .ok condition)
    (hg : w.view.filterFor action r.target = .ok guard) :
    w.Sought id r e item (Guard.merge condition guard) := by
  refine ⟨prepared, joinKey, parent, condition, action, guard, fun kv hkv hr => ?_, .inr hj, hparent, hc, hg, rfl⟩
  rcases (hp.member kv hkv).given with hm | hrel
  · exact hm
  · rw [hr] at hrel; cases hrel

section
variable {omitted : List String} {prepared : Object} {joinKey : Option (List String)} {parent : Value}
  {canCreate : Bool} {entry : Value} (he : w.view.schema.entity r.target = .ok e)
  (ho : w.view.omitted r.target = .ok omitted) (hj : w.view.schema.joinKey? r = .ok joinKey)
  (hparent : parent = id ∨ parent = .null) (hp : w.Drawn T .prepared e (Regular e item) item prepared)
include he ho hj hparent hp

theorem upsertEntry_turns {guard : Object} (hg : w.updateGuard r.target = .ok guard)
    (h : w.upsertEntry r e.keys joinKey parent (omitted ++ r.references) canCreate guard prepared = .ok entry) :
    w.ListEntry T id r e item (if canCreate then "upsert" else "update") entry := by
  obtain ⟨condition, hc, h⟩ := bind_ok_iff.mp h
  obtain ⟨changes, hch, h⟩ := bind_ok_iff.mp h
  have hs := hp.sought hj hparent hc hg
  have hchanges : w.BodyOf T e item .changed r.target changes := by
    rw [Object.without_without] at hch
    refine bodyOf_prepared true he ho ?_ (fun _ => List.subset_append_right _ _) hp hch
    exact List.Subset.trans (List.subset_append_left _ _) (List.subset_append_left _ _)
  cases canCreate with
  | true =>
      obtain ⟨whole, hw, h⟩ := bind_ok_iff.mp h
      obtain rfl := pure_ok_iff.mp h
      exact .upsert hs
        (bodyOf_prepared false he ho (List.subset_append_left _ _) nofun hp hw) hchanges
  | false =>
      obtain rfl := pure_ok_iff.mp h
      exact .update hs hchanges

end

/-- What an item enters is an entry that is drawn from it. -/
theorem ListTerms.Enters.listEntry {t : w.ListTerms r} {prepared : Object} {parent entry : Value} {op : String}
    (hparent : parent = id ∨ parent = .null)
    (hp : w.Drawn T .prepared t.target (Regular t.target item) item prepared)
    (h : t.Enters parent prepared (some (op, entry))) : w.ListEntry T id r t.target item op entry := by
  cases h with
  | connect _ hc hf =>
      obtain ⟨guard, hguard, hf⟩ := bind_ok_iff.mp hf
      obtain rfl := pure_ok_iff.mp hf
      exact .connect (hp.sought t.joinKey_eq hparent hc hguard)
  | upsert _ hg he => exact upsertEntry_turns t.target_eq t.omitted_eq t.joinKey_eq hparent hp hg he
  | create _ _ hb =>
      exact .create (bodyOf_prepared false t.target_eq t.omitted_eq (List.subset_append_left _ _) nofun hp hb)

section
variable {nesting : UpdateNesting} (hn : nesting.Turns T)
include hn

theorem updateMany_turns {items : List Value} {parent : Value} (hparent : parent = id ∨ parent = .null)
    (h : w.updateMany nesting r items parent = .ok ops) :
    w.Turns T id true r (.list items) ops ∧ Payload.Turned ops := by
  obtain ⟨t, placed, henters, rfl⟩ := updateMany_enters h
  have hops : listOperations placed = (listKinds.map fun op => (op, entriesOf op placed)).flatMap
      fun m => Placement.member m.1 m.2 := by
    rw [listOperations, List.flatMap_map]
  rw [hops]
  refine ⟨.ofMembers t.target_eq fun m hm entry hentry => ?_, turned_ofMembers fun m hm => ?_⟩
  · obtain ⟨op, _, rfl⟩ := List.mem_map.mp hm
    obtain ⟨given, hgiven, item, prepared, hitem, hprep, henters⟩ :=
      forall₂_partner henters.flip (mem_entriesOf.mp hentry)
    have hdrawn : w.Drawn T .prepared t.target (Regular t.target item) item prepared :=
      updateItem_drawn hn And.right t.target_eq hprep
    exact ⟨item, checkedItem_ok hitem ▸ hgiven, henters.listEntry hparent hdrawn⟩
  · have hkinds : ∀ op ∈ listKinds, op ∈ Payload.operations := by decide
    obtain ⟨op, hop, rfl⟩ := List.mem_map.mp hm
    exact hkinds op hop

theorem updateOne_turns (hplain : Payload.isOperation v = false)
    (h : w.updateOne nesting r v = .ok (some ops)) :
    w.Turns T id true r v ops ∧ Payload.Turned ops := by
  unfold updateOne at h
  rw [hplain, if_neg Bool.false_ne_true] at h
  obtain ⟨_, _, h⟩ := bind_ok_iff.mp h
  obtain ⟨omitted, ho, h⟩ := bind_ok_iff.mp h
  cases v with
  | object item =>
      obtain ⟨checked, hc, h⟩ := bind_ok_iff.mp h
      obtain ⟨e, he⟩ := checkedItem_entity hc
      obtain rfl := Value.object.inj (checkedItem_ok hc)
      obtain ⟨processed, hp, h⟩ := bind_ok_iff.mp h
      obtain ⟨whole, hw, h⟩ := bind_ok_iff.mp h
      obtain ⟨keys, hkeys, h⟩ := bind_ok_iff.mp h
      obtain ⟨changes, hch, h⟩ := bind_ok_iff.mp h
      rw [keys_of_entity he hkeys] at hch
      rw [pure_ok_iff, Option.ite_none_left_eq_some, Option.some.injEq] at h
      obtain ⟨_, rfl⟩ := h
      have hdrawn : w.Drawn T .prepared e (Regular e item) (Object.without item omitted) processed :=
        updateItem_drawn hn Regular.without he hp
      have hbody : w.BodyOf T e item .created r.target whole :=
        ⟨omitted, omitted, ho, List.Subset.refl _, nofun, linkForeignKeys_drawn he rfl hdrawn hw⟩
      have hchanges : w.BodyOf T e item .changed r.target changes := by
        refine ⟨omitted, _, ho, List.subset_append_left _ _, fun _ => List.subset_append_right _ _, ?_⟩
        rw [← Object.without_without]
        exact linkForeignKeys_drawn he rfl hdrawn.without hch
      refine ⟨.record he fun op x hx => ?_, .inr rfl⟩
      cases List.mem_singleton.mp hx
      exact .upsert rfl hbody hchanges
  | _ => simp [throw_ok_iff] at h

end

/-- The changes to a record are drawn from its payload, whatever the relations are turned into. -/
theorem update_drawn_of_turns (hn : UpdateNesting.Turns T (w.updateNested w.levels id)) {payload : Object}
    (h : w.update entity id payload = .ok out) :
    ∃ e omitted, w.view.schema.entity entity = .ok e ∧ w.view.omitted entity = .ok omitted ∧
      w.Drawn T .changed e (Regular e payload)
        (payload.without (omitted ++ w.auditFields ++ e.keys)) out := by
  obtain ⟨stripped, hst, h⟩ := bind_ok_iff.mp h
  obtain ⟨keys, hkeys, h⟩ := bind_ok_iff.mp h
  obtain ⟨e, he, h⟩ := bind_ok_iff.mp h
  obtain ⟨omitted, ho, hst⟩ := bind_ok_iff.mp hst
  obtain rfl := pure_ok_iff.mp hst
  rw [keys_of_entity he hkeys, Object.without_without] at h
  refine ⟨e, omitted, he, ho, drawn_of_keys Regular.without (fun hstep => ?_) h⟩
  exact (updateTopMember_treats hstep).2.step (fun r ops => hn r _ ops) fun hkept ha => hkept.flat ha.1

/-- What the values of relations are changed to is as told for so many levels if that follows from what is told for one
level less. -/
theorem updateNested_turns_at {U : Nat → Relation → Value → Value → Prop}
    (hU : ∀ levels r v ops, Payload.isOperation v = false → w.Turns (U levels) id true r v ops → U (levels + 1) r v ops)
    (levels : Nat) {parent : Value} (hparent : parent = id ∨ parent = .null) :
    UpdateNesting.Turns (U levels) (w.updateNested levels parent) := by
  induction levels generalizing parent with
  | zero => intro r v ops h; cases h
  | succ levels ih =>
      intro r v ops h
      rw [updateNested] at h
      dsimp only at h
      cases hop : Payload.isOperation v with
      | true =>
          cases v with
          | object =>
              dsimp only at h
              rw [updateOne, if_pos hop] at h
              exact .inl ⟨hop, (Option.some.inj (pure_ok_iff.mp h)).symm⟩
          | _ => cases hop
      | false =>
          have hnext := ih (.inr rfl)
          have hturns : w.Turns (U levels) id true r v ops ∧ Payload.Turned ops := by
            split at h
            · obtain ⟨ops', h, he⟩ := map_ok_iff.mp h
              cases he
              exact updateMany_turns hnext hparent h
            · exact updateOne_turns hnext hop h
          exact .inr ⟨hop, hU _ _ _ _ hop hturns.1, hturns.2⟩

section
variable (hT : ∀ r v ops, Payload.isOperation v = false → w.Turns T id true r v ops → T r v ops)
include hT

theorem updateNested_turns (levels : Nat) {parent : Value} (hparent : parent = id ∨ parent = .null) :
    UpdateNesting.Turns T (w.updateNested levels parent) :=
  updateNested_turns_at (U := fun _ => T) (fun _ => hT) levels hparent

/-- The body of the changes to a record, without its key and the fields that the system sets. -/
theorem update_drawn {payload : Object} (h : w.update entity id payload = .ok out) :
    ∃ e omitted, w.view.schema.entity entity = .ok e ∧ w.view.omitted entity = .ok omitted ∧
      w.Drawn T .changed e (Regular e payload)
        (payload.without (omitted ++ w.auditFields ++ e.keys)) out :=
  update_drawn_of_turns (updateNested_turns hT _ (.inl rfl)) h

end

end RecordGraph.Writer
