import RecordGraph.Proofs.Mutation.Created
import RecordGraph.Proofs.Value.Members

/-!
# Limits of nesting

A writer with a larger limit gets the same from a payload, unless the limit was exceeded: nothing but the error for it
depends on the limit. A payload that is transformed goes no further down than the limit allows.
-/

namespace RecordGraph.Writer

/-- The writer, with another limit. -/
def allowing (w : Writer) (depth : Int) : Writer := { w with maxDepth := depth }

/-- The transformation of a payload: for changes to the record with an id, or for a new record. -/
def transform (w : Writer) (entity : String) (payload : Object) : Option Value → Except Failure Object
  | none => w.create entity payload
  | some id => w.update entity id payload

/-! ## Larger limits -/

/-- An outcome under the limit and one under a larger limit are the same, unless the limit was exceeded. -/
def Agrees {α : Type} (w : Writer) (x y : Except Failure α) : Prop := x = .error w.tooDeep ∨ x = y

section
variable {w : Writer} {α β : Type}

theorem Agrees.refl (x : Except Failure α) : w.Agrees x x := .inr rfl

theorem Agrees.bind {x y : Except Failure α} {f g : α → Except Failure β} (h : w.Agrees x y)
    (hf : ∀ a, w.Agrees (f a) (g a)) : w.Agrees (x >>= f) (y >>= g) := by
  rcases h with rfl | rfl
  · exact .inl rfl
  · cases x with
    | error failure => exact .refl _
    | ok a => exact hf a

/-- Steps that come after one that does not depend on the limit. -/
theorem Agrees.after (x : Except Failure α) {f g : α → Except Failure β} (hf : ∀ a, w.Agrees (f a) (g a)) :
    w.Agrees (x >>= f) (x >>= g) :=
  Agrees.bind (.refl x) hf

theorem Agrees.map {x y : Except Failure α} (f : α → β) (h : w.Agrees x y) : w.Agrees (f <$> x) (f <$> y) := by
  rcases h with rfl | rfl
  · exact .inl rfl
  · exact .refl _

theorem Agrees.mapM {f g : α → Except Failure β} (h : ∀ a, w.Agrees (f a) (g a)) (items : List α) :
    w.Agrees (items.mapM f) (items.mapM g) := by
  induction items with
  | nil => exact .refl _
  | cons item items ih =>
      simp only [List.mapM_cons]
      exact (h item).bind fun _ => ih.bind fun _ => .refl _

theorem Agrees.foldlM {f g : β → α → Except Failure β} (h : ∀ state a, w.Agrees (f state a) (g state a))
    (items : List α) (start : β) : w.Agrees (items.foldlM f start) (items.foldlM g start) := by
  induction items generalizing start with
  | nil => exact .refl _
  | cons item items ih =>
      simp only [List.foldlM_cons]
      exact (h start item).bind ih

end

variable {w : Writer} {e : Entity} {entity path key : String} {r : Relation} {v : Value} {depth : Int}

section
variable {nesting deeper : Nesting} (hn : ∀ r v path, w.Agrees (nesting r v path) (deeper r v path))
include hn

theorem createMember_agrees (body : Object) :
    w.Agrees (w.createMember nesting e path body key) (w.createMember deeper e path body key) := by
  unfold createMember
  dsimp only
  split
  · exact .refl _
  · split
    · split
      · exact (hn _ _ _).bind fun _ => .refl _
      · exact .refl _
    · exact .refl _

theorem createItem_agrees (item : Object) :
    w.Agrees (w.createItem nesting entity path item) (w.createItem deeper entity path item) :=
  .after _ fun _ => .foldlM (fun body _ => createMember_agrees hn body) _ _

theorem placeItem_agrees (keys : List String) (joined : Bool) (dropped : List String) (item : Value) :
    w.Agrees (w.placeItem nesting r path keys joined dropped item) (w.placeItem deeper r path keys joined dropped item) := by
  unfold placeItem
  refine .after _ fun members => ?_
  dsimp only
  split
  · exact .after _ fun _ => (createItem_agrees hn _).bind fun _ => .refl _
  · split
    · exact .refl _
    · exact .after _ fun _ => .after _ fun _ => .after _ fun _ => (createItem_agrees hn _).bind fun _ => .refl _

theorem createMany_agrees (items : List Value) :
    w.Agrees (w.createMany nesting r items path) (w.createMany deeper r items path) := by
  unfold createMany
  refine .after _ fun keys => .after _ fun joinKey => .after _ fun omitted => ?_
  exact (Agrees.mapM (placeItem_agrees hn _ _ _) items).bind fun _ => .refl _

theorem createOne_agrees (path : String) : w.Agrees (w.createOne nesting r v path) (w.createOne deeper r v path) := by
  unfold createOne
  split
  · exact .refl _
  · refine .after _ fun _ => .after _ fun omitted => ?_
    split
    · exact .after _ fun _ => (createItem_agrees hn _).bind fun _ => .refl _
    · exact .refl _

end

theorem createNested_agrees {levels more : Nat} (h : levels ≤ more) (r : Relation) (v : Value) (path : String) :
    w.Agrees (w.createNested levels r v path) ((w.allowing depth).createNested more r v path) := by
  induction levels generalizing more r v path with
  | zero => exact .inl rfl
  | succ levels ih =>
      obtain ⟨more, rfl⟩ : ∃ n, more = n + 1 := ⟨more - 1, by omega⟩
      have hn := @ih more (by omega)
      cases v with
      | list items => exact createMany_agrees hn items
      | _ => exact createOne_agrees hn path

section
variable {nesting deeper : UpdateNesting} (hn : ∀ r v, w.Agrees (nesting r v) (deeper r v))
include hn

theorem updateItem_agrees (item : Object) :
    w.Agrees (w.updateItem nesting entity item) (w.updateItem deeper entity item) := by
  refine .after _ fun e => .foldlM (fun body kv => ?_) _ _
  dsimp only
  split
  · exact .refl _
  · split
    · exact (hn _ _).bind fun _ => .refl _
    · exact .refl _

theorem updateMany_agrees (items : List Value) (parent : Value) :
    w.Agrees (w.updateMany nesting r items parent) (w.updateMany deeper r items parent) := by
  unfold updateMany
  refine .after _ fun keys => .after _ fun joinKey => .after _ fun omitted => ?_
  exact (Agrees.mapM (fun _ => .after _ fun item => updateItem_agrees hn item) items).bind fun _ => .refl _

theorem updateOne_agrees : w.Agrees (w.updateOne nesting r v) (w.updateOne deeper r v) := by
  unfold updateOne
  split
  · exact .refl _
  · refine .after _ fun _ => .after _ fun omitted => ?_
    split
    · exact .after _ fun _ => (updateItem_agrees hn _).bind fun _ => .refl _
    · exact .refl _

end

theorem updateNested_agrees {levels more : Nat} (h : levels ≤ more) (parent : Value) (r : Relation) (v : Value) :
    w.Agrees (w.updateNested levels parent r v) ((w.allowing depth).updateNested more parent r v) := by
  induction levels generalizing more parent r v with
  | zero => exact .inl rfl
  | succ levels ih =>
      obtain ⟨more, rfl⟩ : ∃ n, more = n + 1 := ⟨more - 1, by omega⟩
      have hn := @ih more (by omega) .null
      cases v with
      | list items => exact (updateMany_agrees hn items parent).map some
      | _ => exact updateOne_agrees hn

theorem levels_le (h : w.maxDepth ≤ depth) : w.levels ≤ (w.allowing depth).levels := by
  simp only [levels, allowing]
  omega

theorem createTopMember_agrees (h : w.maxDepth ≤ depth) (body : Object) (key : String) :
    w.Agrees (w.createTopMember e body key) ((w.allowing depth).createTopMember e body key) := by
  unfold createTopMember
  dsimp only
  split
  · split
    · exact .refl _
    · split
      · exact (createNested_agrees (levels_le h) _ _ _).bind fun _ => .refl _
      · exact .refl _
  · exact .refl _

theorem updateTopMember_agrees (h : w.maxDepth ≤ depth) (id : Value) (body : Object) (key : String) :
    w.Agrees (w.updateTopMember e id body key) ((w.allowing depth).updateTopMember e id body key) := by
  unfold updateTopMember
  dsimp only
  split
  · split
    · exact .refl _
    · split
      · exact (updateNested_agrees (levels_le h) _ _ _).bind fun _ => .refl _
      · exact .refl _
  · exact .refl _

/-- A larger limit changes nothing, unless the limit was exceeded. -/
theorem transform_agrees (h : w.maxDepth ≤ depth) (entity : String) (payload : Object) (id : Option Value) :
    w.Agrees (w.transform entity payload id) ((w.allowing depth).transform entity payload id) := by
  cases id with
  | none => exact .after _ fun _ => .after _ fun _ => .foldlM (createTopMember_agrees h) _ _
  | some id => exact .after _ fun _ => .after _ fun _ => .after _ fun _ => .foldlM (updateTopMember_agrees h id) _ _

end RecordGraph.Writer

namespace RecordGraph

/-! ## Descents -/

/-- A loop over the keys of an item comes to a key with the value that was given under it: no foreign key before it
leads to the relation of this name. -/
def Entity.ComesTo (e : Entity) (item : Object) (key : String) : Prop :=
  ∃ before after, item.keys = before ++ key :: after ∧
    ∀ field ∈ before, field ≠ key ∧ ∀ r, e.relationForField? field = some r → r.name ≠ key

namespace Writer

/-- The values in an item of an entity, of a new or of a changed record, that are turned into operations. -/
inductive Works (updating : Bool) (e : Entity) (item : Object) : Relation → Value → Prop
  | created {key r} (hnew : updating = false) (hr : e.relation? key = some r) (hf : e.relationForField? key = none)
      (hat : e.ComesTo item key) (hv : (item.get key).nests = true) : Works updating e item r (item.get key)
  | changed {key r v} (hold : updating = true) (hr : e.relation? key = some r) (hm : (key, v) ∈ item)
      (hv : v.nests = true) : Works updating e item r v

section
variable (w : Writer) (updating : Bool)

/-- The items in the value of a relation that are gone through. An item of a new list that is nothing but a key is
connected as it is. -/
inductive Opens (r : Relation) : Value → Object → Prop
  | record {omitted} {item : Object} (ho : w.view.omitted r.target = .ok omitted)
      (hop : Payload.isOperation (.object item) = false) : Opens r (.object item) (item.without omitted)
  | created {omitted keys joinKey items} {item : Object} (hnew : updating = false)
      (ho : w.view.omitted r.target = .ok omitted) (hkeys : w.view.schema.keys r.target = .ok keys)
      (hjoin : w.view.schema.joinKey? r = .ok joinKey) (hin : .object item ∈ items)
      (hbody : joinKey.isSome = true ∨ (∃ k ∈ keys, item.get k = .null) ∨ ∃ k ∈ item.keys, k ∉ keys) :
      Opens r (.list items) (item.without (omitted ++ r.references))
  | changed {items item} (hold : updating = true) (hin : .object item ∈ items) : Opens r (.list items) item

/-- A value of a relation is gone into so many levels of relations deep. -/
inductive Descends : Nat → Relation → Value → Prop
  | here {r v} : Descends 1 r v
  | further {n r v item e r' v'} (hopen : w.Opens updating r v item) (he : w.view.schema.entity r.target = .ok e)
      (hw : Works updating e item r' v') (h : Descends n r' v') : Descends (n + 1) r v

end

/-- A payload is gone into so many levels of relations deep where it is transformed. -/
def GoesInto (w : Writer) (entity : String) (payload : Object) (id : Option Value) (n : Nat) : Prop :=
  ∃ e omitted key r, ∃ body : Object, w.view.schema.entity entity = .ok e ∧ w.view.omitted entity = .ok omitted ∧
    body = payload.without (omitted ++ w.auditFields ++ if id.isSome then e.keys else []) ∧
    (e.field? key).all Field.isRelation = true ∧ e.relation? key = some r ∧ e.ComesTo body key ∧
    (body.get key).isPresent = true ∧ w.Descends id.isSome n r (body.get key)

variable {w : Writer} {kind : BodyKind} {kept : Prop} {nest : Relation → Value → Value → Prop} {e : Entity}
  {entity path key field : String} {r : Relation} {v : Value} {item body next out : Object}

theorem Treats.get_of_ne (h : w.Treats kind kept nest e field v body next) (hne : field ≠ key)
    (hfree : ∀ r, e.relationForField? field = some r → r.name ≠ key) : next.get key = body.get key := by
  have herase : Object.get? key (Object.erase field body) = Object.get? key body := Object.get?_erase_of_ne hne body
  cases h with
  | kept => rfl
  | nested => rw [Object.get, Object.get, Object.get?_set_of_ne hne]
  | erased => rw [Object.get, Object.get, herase]
  | linked _ hr | cut _ hr => rw [Object.get, Object.get, Object.get?_set_of_ne (hfree _ hr), herase]

/-- A loop that ended without a failure has taken the step of every item. -/
theorem foldlM_ok_split {α β : Type} {f : β → α → Except Failure β} {before after : List α} {a : α} {start last : β}
    (h : (before ++ a :: after).foldlM f start = .ok last) :
    ∃ state next, before.foldlM f start = .ok state ∧ f state a = .ok next := by
  rw [List.foldlM_append, bind_ok_iff] at h
  obtain ⟨state, hbefore, h⟩ := h
  rw [List.foldlM_cons, bind_ok_iff] at h
  obtain ⟨next, hnext, -⟩ := h
  exact ⟨state, next, hbefore, hnext⟩

/-- A loop over the keys of an item takes the step at a key with the value that was given. -/
theorem step_at {f : Object → String → Except Failure Object}
    (hf : ∀ field body next, field ≠ key → (∀ r, e.relationForField? field = some r → r.name ≠ key) →
      f body field = .ok next → next.get key = body.get key)
    (hat : e.ComesTo item key) (h : item.keys.foldlM f item = .ok out) :
    ∃ body next, body.get key = item.get key ∧ f body key = .ok next := by
  obtain ⟨before, after, hkeys, hfree⟩ := hat
  rw [hkeys] at h
  obtain ⟨body, next, hbefore, hnext⟩ := foldlM_ok_split h
  refine ⟨body, next, ?_, hnext⟩
  refine foldlM_ok_kept (I := fun body => body.get key = item.get key) (fun hin hsame hstep => ?_) rfl hbefore
  exact (hf _ _ _ (hfree _ hin).1 (hfree _ hin).2 hstep).trans hsame

/-! ### Created records -/

/-- What is worked on in a new record has been turned by the nesting. -/
theorem createItem_nests {nesting : Nesting} (he : w.view.schema.entity entity = .ok e)
    (h : w.createItem nesting entity path item = .ok out) (hw : Works false e item r v) :
    ∃ path ops, nesting r v path = .ok ops := by
  obtain ⟨e', he', h⟩ := bind_ok_iff.mp h
  cases he.symm.trans he'
  cases hw with
  | changed hold => cases hold
  | @created key _ _ hr hf hat hv =>
      obtain ⟨body, next, hget, hstep⟩ :=
        step_at (fun _ _ _ hne hfree hstep => (createMember_treats hstep).get_of_ne hne hfree) hat h
      unfold createMember at hstep
      rw [Value.nests] at hv
      simp only [hf, hr, hget, hv, ↓reduceIte, bind_ok_iff] at hstep
      obtain ⟨ops, hops, -⟩ := hstep
      exact ⟨_, ops, hops⟩

/-- An item of a new list has a body, unless it is nothing but a whole key. -/
theorem placeItem_opens {nesting : Nesting} {keys dropped : List String} {joined : Bool} {p : Placement}
    (h : w.placeItem nesting r path keys joined dropped (.object item) = .ok p)
    (hbody : joined = true ∨ (∃ k ∈ keys, item.get k = .null) ∨ ∃ k ∈ item.keys, k ∉ keys) :
    ∃ out, w.createItem nesting r.target path (item.without dropped) = .ok out := by
  obtain ⟨members, hmembers, h⟩ := bind_ok_iff.mp h
  cases checkedItem_ok hmembers
  dsimp only at h
  split at h
  · obtain ⟨_, _, h⟩ := bind_ok_iff.mp h
    obtain ⟨out, hout, -⟩ := bind_ok_iff.mp h
    exact ⟨out, hout⟩
  · rename_i hwhole
    have hmore : ¬item.keys.all keys.contains = true := by
      intro hall
      rcases hbody with hjoined | ⟨k, hk, hnull⟩ | ⟨k, hk, hout⟩
      · exact hwhole (by rw [hjoined, Bool.true_or])
      · have hpart : keys.all (fun k => !(item.get k).isNull) = false :=
          List.all_eq_false.mpr ⟨k, hk, by rw [hnull]; decide⟩
        exact hwhole (by rw [hpart, Bool.not_false, Bool.or_true])
      · exact hout (List.contains_iff_mem.mp (List.all_eq_true.mp hall k hk))
    rw [if_neg hmore] at h
    obtain ⟨_, _, h⟩ := bind_ok_iff.mp h
    obtain ⟨_, _, h⟩ := bind_ok_iff.mp h
    obtain ⟨_, _, h⟩ := bind_ok_iff.mp h
    obtain ⟨out, hout, -⟩ := bind_ok_iff.mp h
    exact ⟨out, hout⟩

/-- What is opened of the value of a relation is the body of a new record. -/
theorem createNested_opens {levels : Nat} {ops : Value} (h : w.createNested (levels + 1) r v path = .ok ops)
    (hopen : w.Opens false r v item) :
    ∃ path out, w.createItem (w.createNested levels) r.target path item = .ok out := by
  cases hopen with
  | changed hold => cases hold
  | @record omitted item ho hop =>
      rw [createNested] at h
      unfold createOne at h
      simp only [hop, Bool.false_eq_true, ↓reduceIte, bind_ok_iff, ho] at h
      obtain ⟨_, _, omitted', ho', checked, hc, body, hb, -⟩ := h
      cases ho'
      cases checkedItem_ok hc
      exact ⟨_, body, hb⟩
  | @created omitted keys joinKey items item _ ho hkeys hjoin hin hbody =>
      obtain ⟨keys', hkeys', h⟩ := bind_ok_iff.mp h
      obtain ⟨joinKey', hjoin', h⟩ := bind_ok_iff.mp h
      obtain ⟨omitted', ho', h⟩ := bind_ok_iff.mp h
      obtain ⟨ps, hps, -⟩ := bind_ok_iff.mp h
      cases hkeys.symm.trans hkeys'
      cases hjoin.symm.trans hjoin'
      cases ho.symm.trans ho'
      obtain ⟨p, -, hp⟩ := forall₂_partner (mapM_ok_forall₂ hps) hin
      obtain ⟨out, hout⟩ := placeItem_opens hp hbody
      exact ⟨_, out, hout⟩

theorem createNested_descends {levels n : Nat} {ops : Value} (hd : w.Descends false n r v)
    (h : w.createNested levels r v path = .ok ops) : n ≤ levels := by
  induction hd generalizing levels path ops with
  | here =>
      cases levels with
      | zero => cases h
      | succ levels => omega
  | further hopen he hw _ ih =>
      cases levels with
      | zero => cases h
      | succ levels =>
          obtain ⟨_, _, hitem⟩ := createNested_opens h hopen
          obtain ⟨_, _, hnested⟩ := createItem_nests he hitem hw
          exact Nat.succ_le_succ (ih hnested)

/-! ### Updated records -/

/-- What is worked on in a changed record has been turned by the nesting. -/
theorem updateItem_nests {nesting : UpdateNesting} (he : w.view.schema.entity entity = .ok e)
    (h : w.updateItem nesting entity item = .ok out) (hw : Works true e item r v) : ∃ ops, nesting r v = .ok ops := by
  obtain ⟨e', he', h⟩ := bind_ok_iff.mp h
  cases he.symm.trans he'
  cases hw with
  | created hnew => cases hnew
  | changed _ hr hm hv =>
      obtain ⟨before, after, rfl⟩ := List.append_of_mem hm
      obtain ⟨body, next, -, hstep⟩ := foldlM_ok_split h
      rw [Value.nests] at hv
      simp only [hr, hv, ↓reduceIte, bind_ok_iff] at hstep
      obtain ⟨ops, hops, -⟩ := hstep
      exact ⟨ops, hops⟩

/-- What is opened of the value of a relation is the body of a changed record. -/
theorem updateNested_opens {levels : Nat} {parent : Value} {ops : Option Value}
    (h : w.updateNested (levels + 1) parent r v = .ok ops) (hopen : w.Opens true r v item) :
    ∃ out, w.updateItem (w.updateNested levels .null) r.target item = .ok out := by
  cases hopen with
  | created hnew => cases hnew
  | @record omitted item ho hop =>
      rw [updateNested] at h
      unfold updateOne at h
      simp only [hop, Bool.false_eq_true, ↓reduceIte, bind_ok_iff, ho] at h
      obtain ⟨_, _, omitted', ho', checked, hc, body, hb, -⟩ := h
      cases ho'
      cases checkedItem_ok hc
      exact ⟨body, hb⟩
  | @changed items item _ hin =>
      obtain ⟨_, h, -⟩ := map_ok_iff.mp h
      obtain ⟨_, _, h⟩ := bind_ok_iff.mp h
      obtain ⟨_, _, h⟩ := bind_ok_iff.mp h
      obtain ⟨_, _, h⟩ := bind_ok_iff.mp h
      obtain ⟨prepared, hprepared, -⟩ := bind_ok_iff.mp h
      obtain ⟨out, -, hout⟩ := forall₂_partner (mapM_ok_forall₂ hprepared) hin
      obtain ⟨members, hmembers, hout⟩ := bind_ok_iff.mp hout
      cases checkedItem_ok hmembers
      exact ⟨out, hout⟩

theorem updateNested_descends {levels n : Nat} {parent : Value} {ops : Option Value} (hd : w.Descends true n r v)
    (h : w.updateNested levels parent r v = .ok ops) : n ≤ levels := by
  induction hd generalizing levels parent ops with
  | here =>
      cases levels with
      | zero => cases h
      | succ levels => omega
  | further hopen he hw _ ih =>
      cases levels with
      | zero => cases h
      | succ levels =>
          obtain ⟨_, hitem⟩ := updateNested_opens h hopen
          obtain ⟨_, hnested⟩ := updateItem_nests he hitem hw
          exact Nat.succ_le_succ (ih hnested)

/-! ### Payloads -/

/-- A payload that is transformed is gone into no deeper than the limit allows. -/
theorem goesInto_le {payload : Object} {id : Option Value} {n : Nat} (h : w.transform entity payload id = .ok out)
    (hg : w.GoesInto entity payload id n) : n ≤ w.levels := by
  obtain ⟨e, omitted, key, r, body, he, ho, hbody, hfield, hr, hat, hv, hd⟩ := hg
  cases id with
  | none =>
      obtain ⟨stripped, hstripped, h⟩ := bind_ok_iff.mp h
      obtain ⟨omitted', ho', hstripped⟩ := bind_ok_iff.mp hstripped
      obtain ⟨e', he', h⟩ := bind_ok_iff.mp h
      cases ho.symm.trans ho'
      cases he.symm.trans he'
      have hsame : stripped = body := by simpa [hbody] using (pure_ok_iff.mp hstripped).symm
      rw [hsame] at h
      obtain ⟨state, next, hget, hstep⟩ :=
        step_at (fun _ _ _ hne hfree hstep => (createTopMember_treats hstep).2.get_of_ne hne hfree) hat h
      unfold createTopMember at hstep
      simp only [hfield, hr, hget, hv, ↓reduceIte, bind_ok_iff] at hstep
      obtain ⟨ops, hops, -⟩ := hstep
      exact createNested_descends hd hops
  | some id =>
      obtain ⟨stripped, hstripped, h⟩ := bind_ok_iff.mp h
      obtain ⟨omitted', ho', hstripped⟩ := bind_ok_iff.mp hstripped
      obtain ⟨keys, hkeys, h⟩ := bind_ok_iff.mp h
      obtain ⟨e', he', h⟩ := bind_ok_iff.mp h
      cases ho.symm.trans ho'
      cases he.symm.trans he'
      obtain ⟨e', he', rfl⟩ := map_ok_iff.mp hkeys
      cases he.symm.trans he'
      have hsame : stripped.without e.keys = body := by
        rw [hbody, ← pure_ok_iff.mp hstripped, Object.without_without]
        rfl
      rw [hsame] at h
      obtain ⟨state, next, hget, hstep⟩ :=
        step_at (fun _ _ _ hne hfree hstep => (updateTopMember_treats hstep).2.get_of_ne hne hfree) hat h
      unfold updateTopMember at hstep
      simp only [hfield, hr, hget, hv, ↓reduceIte, bind_ok_iff] at hstep
      obtain ⟨ops, hops, -⟩ := hstep
      exact updateNested_descends hd hops

end Writer

end RecordGraph
