import Mathlib.Algebra.GroupWithZero.Nat
import RecordGraph.Proofs.Mutation.Rows

/-!
# Tallies of items

Nothing that is given in a list is lost or told twice: every item of a list relation that is updated becomes one entry
of one operation, and the entries of an operation stand in the order of their items. An entry is looked up by the key of
its item and bears its members, and so do the lists inside it. Only a writer who may not create a record of which
nothing is known has items left out that would be created.
-/

namespace RecordGraph

/-- Every item that became an entry is counted once. -/
theorem entriesOf_count {placed : List (Option (String × Value))}
    (h : ∀ op entry, some (op, entry) ∈ placed → op ∈ listKinds) :
    (listKinds.map fun op => (entriesOf op placed).length).sum = (placed.filter Option.isSome).length := by
  induction placed with
  | nil => rfl
  | cons p placed ih =>
      have hrest := ih fun op entry hin => h op entry (List.mem_cons_of_mem _ hin)
      simp only [listKinds, List.map_cons, List.map_nil, List.sum_cons, List.sum_nil] at hrest ⊢
      cases p with
      | none => simpa using hrest
      | some entry =>
          obtain ⟨op, entry⟩ := entry
          have hop := h op entry List.mem_cons_self
          simp only [listKinds, List.mem_cons, List.not_mem_nil, or_false] at hop
          rcases hop with rfl | rfl | rfl | rfl <;> simp <;> omega

/-- What links a relation by a foreign key is the field that the relation is held by. -/
theorem Entity.field_of_foreign {e : Entity} {key field : String} {r r' : Relation}
    (hs : (e.relations.map (·.name)).Nodup) (hr : e.relation? key = some r)
    (hf : e.relationForField? field = some r') (hname : r'.name = key) : r.field? = some field := by
  have hname' : r.name = key := by simpa using List.find?_some hr
  obtain rfl := List.inj_on_of_nodup_map hs (List.mem_of_find?_eq_some hf) (List.mem_of_find?_eq_some hr)
    (hname.trans hname'.symm)
  simpa using List.find?_some hf

namespace Writer

section
variable {w : Writer} (T : Relation → Value → Option Value → Prop)

/-- A body has the members of an item, but for those that are left out: what is no relation and holds none as it is
given, and in place of the value of a relation what is made of it, unless a foreign key stands beside it. -/
structure Bears (e : Entity) (dropped : List String) (item body : Object) : Prop where
  plain : ∀ key ∉ dropped, e.relation? key = none → e.relationForField? key = none →
    Object.get? key body = Object.get? key item
  turned : ∀ key ∉ dropped, ∀ r, e.relation? key = some r → e.relationForField? key = none →
    (∀ field, r.field? = some field → field ∉ item.keys) → (item.get key).nests = true →
    T r (item.get key) (Object.get? key body)

/-- An item is told by the entry of one operation, or is left out. -/
inductive ListTerms.Represents {r : Relation} (t : w.ListTerms r) (parent : Value) (item : Object) :
    Option (String × Value) → Prop
  | connect {filter : Object}
      (honly : ∀ k ∈ item.keys, t.target.relation? k = none → k ∈ t.joinKey.getD t.target.keys)
      (hrow : Finds r t.target t.joinKey parent item (.object filter)) :
      Represents t parent item (some ("connect", .object filter))
  | upsert {filter body changes : Object} (hcan : t.canCreate = true)
      (hrow : Finds r t.target t.joinKey parent item (.object filter)) (hb : Bears T t.target t.dropped item body)
      (hc : Bears T t.target (t.dropped ++ t.target.keys) item changes) :
      Represents t parent item (some ("upsert",
        .object [("where", .object filter), ("create", .object body), ("update", .object changes)]))
  | update {filter changes : Object} (hcan : t.canCreate = false)
      (hrow : Finds r t.target t.joinKey parent item (.object filter))
      (hc : Bears T t.target (t.dropped ++ t.target.keys) item changes) :
      Represents t parent item (some ("update", .object [("where", .object filter), ("data", .object changes)]))
  | create {body : Object} (hcan : t.canCreate = true) (hb : Bears T t.target t.dropped item body) :
      Represents t parent item (some ("create", .object body))
  /-- Only an item without the whole key of its entity is left out, and of no join table. -/
  | left (hcan : t.canCreate = false) (hjoin : t.joinKey = none)
      (hkey : ∃ k ∈ t.target.keys, t.target.relation? k = none → item.get k = .null) : Represents t parent item none

end

/-- What the value of a relation is made into by an update: the entries of the items of a list, or the bodies of a
record. -/
inductive Tallies (w : Writer) (T : Relation → Value → Option Value → Prop) (parent : Value) (r : Relation) :
    Value → Option Value → Prop
  | many {items placed} (t : w.ListTerms r) (h : List.Forall₂ (fun given entry =>
      ∃ item, given = .object item ∧ t.Represents T parent item entry) items placed) :
      Tallies w T parent r (.list items) (some (.object (listOperations placed)))
  | record {e omitted} {item whole changes : Object} (he : w.view.schema.entity r.target = .ok e)
      (ho : w.view.omitted r.target = .ok omitted) (hb : Bears T e omitted item whole)
      (hc : Bears T e (omitted ++ e.keys) item changes) :
      Tallies w T parent r (.object item)
        (let parts : Object := (if Payload.hasMeaning whole then [("create", .object whole)] else [])
          ++ (if Payload.hasMeaning changes then [("update", .object changes)] else [])
        if parts.isEmpty then none else some (.object [("upsert", .object parts)]))
  | operation {v} (h : Payload.isOperation v = true) : Tallies w T parent r v (some v)

/-- What the value of a relation that may nest so many levels is made into, all the way down. -/
def Tallied (w : Writer) : Nat → Value → Relation → Value → Option Value → Prop
  | 0, _ => fun _ _ _ => False
  | levels + 1, parent => w.Tallies (w.Tallied levels .null) parent

variable {w : Writer} {T : Relation → Value → Option Value → Prop} {levels : Nat} {entity key : String} {r : Relation}
  {e : Entity} {parent above v : Value} {o : Option Value} {keys dropped : List String}
  {joinKey : Option (List String)} {item prepared body : Object}

/-! ## Kinds of items -/

theorem itemKind_connect (h : itemKind keys joinKey item = .connect) : ∀ k ∈ item.keys, k ∈ joinKey.getD keys := by
  intro k hk
  cases joinKey with
  | none =>
      simp only [itemKind] at h
      split at h
      next honly =>
        rw [Bool.and_eq_true] at honly
        simpa using List.all_eq_true.mp honly.1 k hk
      next => split at h <;> cases h
  | some names =>
      simp only [itemKind] at h
      split at h
      next honly => simpa using List.all_eq_true.mp honly k hk
      next => split at h <;> cases h

theorem itemKind_create (h : itemKind keys joinKey item = .create) :
    joinKey = none ∧ ∃ k ∈ keys, item.get k = .null := by
  cases joinKey with
  | none =>
      simp only [itemKind, Option.isSome_none, Bool.false_or] at h
      split at h
      · cases h
      · split at h
        · cases h
        next hpart =>
          obtain ⟨k, hk, hnull⟩ : ∃ k ∈ keys, (Object.get item k).isNull = true := by simpa using hpart
          refine ⟨rfl, k, hk, ?_⟩
          cases hv : Object.get item k with
          | null => rfl
          | _ => rw [hv] at hnull; cases hnull
  | some names =>
      simp only [itemKind, Option.isSome_some, Bool.true_or, ↓reduceIte] at h
      split at h <;> cases h

/-! ## Bodies -/

/-- A body bears the members of its item when its relations are turned and its foreign keys linked. -/
theorem bears_of_loops {updating : Bool} (hs : (e.relations.map (·.name)).Nodup)
    (he : w.view.schema.entity entity = .ok e) (hn : item.keys.Nodup)
    (hT : ∀ key r o, (w.updateNested levels parent).Gives r (item.get key) o → T r (item.get key) o)
    (hp : w.updateItem (w.updateNested levels parent) entity item = .ok prepared)
    (h : w.linkForeignKeys entity updating (prepared.without dropped) = .ok body) : Bears T e dropped item body := by
  obtain ⟨f, h, hf⟩ := linkForeignKeys_acts he h
  constructor
  · intro key hseen hplain hfree
    have hname : ∀ field ∈ (prepared.without dropped).keys, ∀ r, e.foreignRole field = .foreign r → r.name ≠ key := by
      rintro field _ r hr rfl
      have hsome := Entity.relation?_of_foreign (Entity.foreign_foreignRole hr)
      rw [hplain] at hsome
      cases hsome
    rw [keeps_of_members (Entity.foreignRole_of_none hfree) hname hf h, Object.get?_without hseen]
    exact updateItem_keeps he hp (.inl hplain)
  · intro key hseen r hr hfree halone hnests
    have hname : ∀ field ∈ (prepared.without dropped).keys, ∀ r, e.foreignRole field = .foreign r → r.name ≠ key := by
      intro field hfield r' hr' hname
      have hheld := Entity.field_of_foreign hs hr (Entity.foreign_foreignRole hr') hname
      obtain ⟨kv, hkv, rfl⟩ := List.mem_map.mp hfield
      exact halone _ hheld (updateItem_keys he hp _ (List.mem_map_of_mem (Object.mem_of_mem_without hkv)))
    rw [keeps_of_members (Entity.foreignRole_of_none hfree) hname hf h, Object.get?_without hseen]
    obtain ⟨_, hends⟩ := updateItem_ends he hn hp
    have hin : key ∈ item.keys := List.mem_map_of_mem (Object.mem_of_get_ne_null (Value.ne_null_of_nests hnests))
    have hown := (hends key).owned (fun _ _ _ hr' => absurd hr' Entity.not_foreign_relationRole) hin
    exact hT key r _ (hown.turned (Entity.relationRole_of_some hr) hnests)

/-- What is left out of an item beforehand is left out of its body. -/
theorem Bears.of_without {omitted : List String} (h : Bears T e dropped (item.without omitted) body) :
    Bears T e (omitted ++ dropped) item body := by
  have hkept : ∀ {key}, key ∉ omitted ++ dropped → Object.get? key (item.without omitted) = Object.get? key item ∧
      key ∉ dropped := fun hseen =>
    ⟨Object.get?_without fun hin => hseen (List.mem_append_left _ hin), fun hin => hseen (List.mem_append_right _ hin)⟩
  constructor
  · intro key hseen hplain hfree
    obtain ⟨hget, hseen⟩ := hkept hseen
    exact (h.plain key hseen hplain hfree).trans hget
  · intro key hseen r hr hfree halone hnests
    obtain ⟨hget, hseen⟩ := hkept hseen
    have hvalue := Object.get_eq_of_get? hget
    have hturned := h.turned key hseen r hr hfree (fun field hheld hin => ?_) (hvalue ▸ hnests)
    · exact hvalue ▸ hturned
    · obtain ⟨kv, hkv, rfl⟩ := List.mem_map.mp hin
      exact halone _ hheld (List.mem_map_of_mem (Object.mem_of_mem_without hkv))

/-! ## Lists and records -/

section
variable (hs : w.view.schema.Distinct)
include hs

/-- An entry tells its item, whatever the relations of the item are turned into. -/
theorem represents_of_enters (hr : w.view.rules.Proper) {t : w.ListTerms r} {entry : Option (String × Value)}
    (hn : item.keys.Nodup)
    (hT : ∀ key r o, (w.updateNested levels above).Gives r (item.get key) o → T r (item.get key) o)
    (hp : w.updateItem (w.updateNested levels above) r.target item = .ok prepared)
    (h : t.Enters parent prepared entry) : t.Represents T parent item entry := by
  have hkept : ∀ k, t.target.relation? k = none ∨ k ∉ item.keys → Object.get? k prepared = Object.get? k item :=
    fun k hkey => updateItem_keeps t.target_eq hp hkey
  have hbears : ∀ {updating dropped body},
      w.linkForeignKeys r.target updating (prepared.without dropped) = .ok body → Bears T t.target dropped item body :=
    fun hlink => bears_of_loops (hs _ _ t.target_eq) t.target_eq hn hT hp hlink
  cases h with
  | connect hk hc hf =>
      obtain ⟨guard, hguard, hf⟩ := bind_ok_iff.mp hf
      obtain rfl := pure_ok_iff.mp hf
      refine .connect (fun k hin hplain => ?_) (itemWhere_finds (Rules.filterFor_nodup hr hguard) hkept hc)
      refine itemKind_connect hk k ?_
      by_contra hno
      rw [← Object.get?_eq_none_iff, hkept k (.inl hplain), Object.get?_eq_none_iff] at hno
      exact hno hin
  | upsert hk hg he =>
      have hguard := Rules.filterFor_nodup hr hg
      obtain ⟨condition, hc, he⟩ := bind_ok_iff.mp he
      obtain ⟨changes, hchanges, he⟩ := bind_ok_iff.mp he
      rw [Object.without_without] at hchanges
      cases hcan : t.canCreate with
      | true =>
          rw [if_pos hcan] at he
          obtain ⟨whole, hwhole, he⟩ := bind_ok_iff.mp he
          obtain rfl := pure_ok_iff.mp he
          exact .upsert hcan (itemWhere_finds hguard hkept hc) (hbears hwhole) (hbears hchanges)
      | false =>
          rw [if_neg (Bool.eq_false_iff.mp hcan)] at he
          obtain rfl := pure_ok_iff.mp he
          exact .update hcan (itemWhere_finds hguard hkept hc) (hbears hchanges)
  | create hk hcan hb => exact .create hcan (hbears hb)
  | left hk hcan =>
      obtain ⟨hjoin, k, hkey, hnull⟩ := itemKind_create hk
      exact .left hcan hjoin ⟨k, hkey, fun hplain => (Object.get_eq_of_get? (hkept k (.inl hplain))).symm.trans hnull⟩

theorem updateOne_tallied (hT : ∀ r v o, v.Proper → w.updateNested levels above r v = .ok o → T r v o) (hv : v.Proper)
    (h : w.updateOne (w.updateNested levels above) r v = .ok o) : w.Tallies T parent r v o := by
  unfold updateOne at h
  split at h
  next hops => exact pure_ok_iff.mp h ▸ .operation hops
  next =>
    obtain ⟨_, _, h⟩ := bind_ok_iff.mp h
    obtain ⟨omitted, ho, h⟩ := bind_ok_iff.mp h
    cases v with
    | object members =>
        obtain ⟨item, hitem, h⟩ := bind_ok_iff.mp h
        obtain ⟨processed, hp, h⟩ := bind_ok_iff.mp h
        obtain ⟨whole, hwhole, h⟩ := bind_ok_iff.mp h
        obtain ⟨keys, hkeys, h⟩ := bind_ok_iff.mp h
        obtain ⟨changes, hchanges, hout⟩ := bind_ok_iff.mp h
        obtain rfl := pure_ok_iff.mp hout
        obtain ⟨e, he, rfl⟩ := map_ok_iff.mp hkeys
        cases checkedItem_ok hitem
        have hproper : (Value.object (Object.without members omitted)).Proper := hv.without omitted
        have hbears : ∀ {updating dropped body},
            w.linkForeignKeys r.target updating (processed.without dropped) = .ok body →
            Bears T e (omitted ++ dropped) members body := fun hlink =>
          (bears_of_loops (hs _ _ he) he hproper.keys (fun key r o => hT r _ o (hproper.get key)) hp hlink).of_without
        have hwhole : w.linkForeignKeys r.target false (processed.without []) = .ok whole := by
          simpa [Object.without] using hwhole
        exact .record he ho ((List.append_nil omitted) ▸ hbears hwhole) (hbears hchanges)
    | _ => cases h

variable (hr : w.view.rules.Proper)
include hr

/-- Every item of a list is told by an entry of its own, in the order of the list. -/
theorem updateMany_tallied {items : List Value} {ops : Value}
    (hT : ∀ r v o, v.Proper → w.updateNested levels above r v = .ok o → T r v o) (hv : (Value.list items).Proper)
    (h : w.updateMany (w.updateNested levels above) r items parent = .ok ops) :
    w.Tallies T parent r (.list items) (some ops) := by
  obtain ⟨t, placed, henters, rfl⟩ := updateMany_enters h
  have hitems := (List.forall₂_and_left _ _).mpr ⟨fun _ => hv.item, henters⟩
  refine .many t (hitems.imp fun given entry hitem => ?_)
  obtain ⟨hproper, item, prepared, hitem, hp, hentry⟩ := hitem
  obtain rfl := checkedItem_ok hitem
  exact ⟨item, rfl, represents_of_enters hs hr hproper.keys (fun key r o => hT r _ o (hproper.get key)) hp hentry⟩

/-- Down to the level that a payload may nest to, every item and every record inside it is told. -/
theorem updateNested_tallied (hv : v.Proper) (h : w.updateNested levels parent r v = .ok o) :
    w.Tallied levels parent r v o := by
  induction levels generalizing parent r v o with
  | zero => cases h
  | succ levels ih =>
      unfold updateNested at h
      split at h
      next items =>
        obtain ⟨ops, hops, rfl⟩ := map_ok_iff.mp h
        exact updateMany_tallied hs hr (fun _ _ _ => ih) hv hops
      next => exact updateOne_tallied hs (fun _ _ _ => ih) hv h

end

theorem ListTerms.Represents.listed {t : w.ListTerms r} {op : String} {entry : Value}
    (h : t.Represents T parent item (some (op, entry))) : op ∈ listKinds := by
  cases h <;> decide

/-- Where no item is left out there are as many entries as items. -/
theorem ListTerms.entries_count {t : w.ListTerms r} {items : List Value} {placed : List (Option (String × Value))}
    (hcan : t.canCreate = true) (h : List.Forall₂ (fun given entry =>
      ∃ item, given = .object item ∧ t.Represents T parent item entry) items placed) :
    (listKinds.map fun op => (entriesOf op placed).length).sum = items.length := by
  have hsome : ∀ p ∈ placed, ∃ op entry, p = some (op, entry) ∧ op ∈ listKinds := by
    intro p hp
    obtain ⟨_, _, item, rfl, hitem⟩ := forall₂_partner h.flip hp
    cases p with
    | none =>
        cases hitem with
        | left hno => rw [hcan] at hno; cases hno
    | some entry => exact ⟨entry.1, entry.2, rfl, hitem.listed⟩
  rw [entriesOf_count, List.filter_eq_self.mpr, h.length_eq]
  · intro p hp
    obtain ⟨_, _, rfl, _⟩ := hsome p hp
    rfl
  · intro op entry hp
    obtain ⟨_, _, hentry, hop⟩ := hsome _ hp
    cases hentry
    exact hop

/-- Every item of a list that is written is told by the entry of one operation, in the order of the list, or left out
for a writer who may not create a record of which nothing is known. -/
theorem list_items_told (w : Writer) (hr : w.view.rules.Proper) (hs : w.view.schema.Distinct)
    (ha : w.view.schema.ScalarsApart) {entity key : String} {e : Entity} {r : Relation} {omitted : List String}
    {payload : Object} {items : List Value} (he : w.view.schema.entity entity = .ok e)
    (homitted : w.view.omitted entity = .ok omitted) (hrelation : e.relation? key = some r)
    (hp : (Value.object payload).Proper) (hitems : Object.get? key payload = some (.list items))
    (hseen : key ∉ omitted ++ w.auditFields ++ e.keys)
    (halone : ∀ field, r.field? = some field → field ∉ payload.keys) (id : Value) (out : Object)
    (h : w.update entity id payload = .ok out) :
    (items = [] ∧ Object.get? key out = some (.list [])) ∨
    ∃ levels, w.levels = levels + 1 ∧ ∃ (t : w.ListTerms r) (placed : List (Option (String × Value))),
      List.Forall₂ (fun given entry => ∃ item, given = .object item ∧
        t.Represents (w.Tallied levels .null) id item entry) items placed ∧
      Object.get? key out = some (.object (listOperations placed)) ∧
      (t.canCreate = true → (listKinds.map fun op => (entriesOf op placed).length).sum = items.length) := by
  obtain ⟨_, ho, _, hends⟩ := update_ends (Entity.topRole_apart (hs _ _ he) (ha _ _ he)) he hp.keys h
  cases homitted.symm.trans ho
  have hget : Object.get? key (payload.without (omitted ++ w.auditFields ++ e.keys)) = some (.list items) :=
    (Object.get?_without hseen).trans hitems
  have hvalue : Object.get (payload.without (omitted ++ w.auditFields ++ e.keys)) key = .list items := by
    rw [Object.get, hget]
    rfl
  have hrole : e.topRole key = .relation r := by
    have hplain : (e.field? key).all Field.isRelation = true := by
      by_contra hscalar
      have hnone := Entity.Apart.relation?_eq_none (ha _ _ he) (Bool.eq_false_iff.mpr hscalar)
      rw [hrelation] at hnone
      cases hnone
    exact (if_pos hplain).trans (Entity.relationRole_of_some hrelation)
  have hown := (hends key).owned (fun field hfield r' hr' hname => by
    obtain ⟨kv, hkv, rfl⟩ := List.mem_map.mp hfield
    exact halone _ (Entity.field_of_foreign (hs _ _ he) hrelation (Entity.foreign_topRole hr') hname)
      (List.mem_map_of_mem (Object.mem_of_mem_without hkv))) (List.mem_map_of_mem (Object.mem_of_get? hget))
  generalize hfound : Object.get? key out = found at hown ⊢
  cases items with
  | nil =>
      refine .inl ⟨rfl, ?_⟩
      cases hown with
      | kept => exact hget
      | nested _ hnests => rw [hvalue] at hnests; cases hnests
      | foreign hr' => rw [hrole] at hr'; cases hr'
  | cons first rest =>
      right
      have hturned := hown.turned hrole (by rw [hvalue]; rfl)
      rw [hvalue] at hturned
      have hproper : (Value.list (first :: rest)).Proper := hvalue ▸ (hp.without _).get key
      have htold := updateNested_tallied hs hr hproper hturned
      cases hlevels : w.levels with
      | zero => rw [hlevels] at htold; exact htold.elim
      | succ levels =>
          rw [hlevels] at htold
          refine ⟨levels, rfl, ?_⟩
          cases htold with
          | many t hplaced => exact ⟨t, _, hplaced, rfl, fun hcan => t.entries_count hcan hplaced⟩
          | operation hop => cases hop

/-! Cellars with bottles, racks that one writer does not see, and casks of which the first is named by a field. -/

def cellarSchema : Schema := ⟨[
  ("Cellar", .ok ⟨"Cellar", ["id"], [⟨"id", .scalar, "int", false, false, true, false⟩,
      ⟨"caskId", .scalar, "int", true, false, false, false⟩,
      ⟨"bottles", .relation, "Bottle", false, false, false, true⟩,
      ⟨"racks", .relation, "Rack", false, false, false, true⟩,
      ⟨"casks", .relation, "Rack", false, false, false, true⟩],
    [⟨"bottles", "Bottle", .many, [], ["cellarId"]⟩, ⟨"racks", "Rack", .many, [], ["cellarId"]⟩,
      ⟨"casks", "Rack", .many, ["caskId"], ["id"]⟩]⟩),
  ("Bottle", .ok ⟨"Bottle", ["id"], [⟨"id", .scalar, "int", false, false, true, false⟩,
      ⟨"name", .scalar, "string", true, false, false, false⟩,
      ⟨"cellarId", .scalar, "int", true, false, false, false⟩], []⟩),
  ("Rack", .ok ⟨"Rack", ["id"], [⟨"id", .scalar, "int", false, false, true, false⟩,
      ⟨"cellarId", .scalar, "int", true, false, false, false⟩], []⟩)]⟩

def vintner : Writer := { view := ⟨cellarSchema, ⟨[]⟩, .principal {}⟩ }

def cellarBottles : Relation := ⟨"bottles", "Bottle", .many, [], ["cellarId"]⟩

def bottledCellar : Object := [("bottles", .list [.object [("id", .int 1)],
  .object [("id", .int 2), ("name", .text "a")], .object [("name", .text "b")]])]

def bottleOperations : Object := [("connect", .list [.object [("id", .int 1)]]),
  ("upsert", .list [.object [("where", .object [("id", .int 2)]),
    ("create", .object [("id", .int 2), ("name", .text "a")]), ("update", .object [("name", .text "a")])]]),
  ("create", .list [.object [("name", .text "b")]])]

theorem cellarSchema_distinct : cellarSchema.Distinct := Schema.distinct_of_all (by decide)

theorem cellarSchema_scalarsApart : cellarSchema.ScalarsApart := Schema.scalarsApart_of_all (by decide)

/-- One bottle is put into a cellar, one is changed and one is new. -/
theorem bottledCellar_told :
    vintner.view.rules.Proper ∧ cellarSchema.Distinct ∧ cellarSchema.ScalarsApart ∧
    let cellar := (cellarSchema.entity "Cellar").toOption.getD default
    cellarSchema.entity "Cellar" = .ok cellar ∧ vintner.view.omitted "Cellar" = .ok [] ∧
    cellar.relation? "bottles" = some cellarBottles ∧ (Value.object bottledCellar).Proper ∧
    "bottles" ∉ [] ++ vintner.auditFields ++ cellar.keys ∧
    (∀ field, cellarBottles.field? = some field → field ∉ bottledCellar.keys) ∧
    vintner.update "Cellar" (.int 1) bottledCellar = .ok [("bottles", .object bottleOperations)] ∧
    ∃ (t : vintner.ListTerms cellarBottles) (placed : List (Option (String × Value))),
      List.Forall₂ (fun given entry => ∃ item, given = .object item ∧
          t.Represents (vintner.Tallied 10 .null) (.int 1) item entry)
        (Object.get bottledCellar "bottles").asItems placed ∧
      listOperations placed = bottleOperations ∧
      (listKinds.map fun op => (entriesOf op placed).length).sum = 3 := by
  have hr : vintner.view.rules.Proper := Rules.nil_proper
  have hs := cellarSchema_distinct
  have ha := cellarSchema_scalarsApart
  have hp : (Value.object bottledCellar).Proper := by decide
  have hseen : "bottles" ∉ [] ++ vintner.auditFields ++ ["id"] := by decide
  have halone : ∀ field, cellarBottles.field? = some field → field ∉ bottledCellar.keys := fun _ hf => by cases hf
  have hu : vintner.update "Cellar" (.int 1) bottledCellar = .ok [("bottles", .object bottleOperations)] := rfl
  refine ⟨hr, hs, ha, rfl, rfl, rfl, hp, hseen, halone, hu, ?_⟩
  rcases list_items_told vintner hr hs ha rfl rfl rfl hp rfl hseen halone _ _ hu with
    ⟨hempty, _⟩ | ⟨levels, hlevels, t, placed, hplaced, hops, hcount⟩
  · cases hempty
  · have hten : 10 = levels := Nat.succ.inj hlevels
    subst hten
    have hcan : t.canCreate = true := Except.ok.inj t.canCreate_eq.symm
    exact ⟨t, placed, hplaced, (Value.object.inj (Option.some.inj hops)).symm, hcount hcan⟩

/-- A rule that lets records be created that have a name, and one that hides the racks. -/
def cellarRules : Rules := ⟨[
  ("Bottle", { mayCreate := some fun _ given => .ok (match given with
    | .object o => Object.get o "name"
    | _ => .null) }),
  ("Cellar", { omitted := some fun _ => .ok (.list [.text "racks"]) })]⟩

def apprentice : Writer := { view := ⟨cellarSchema, cellarRules, .principal {}⟩ }

/-- A bottle that may be created is left out, the racks are left out as a whole, and the casks give way to the one that
the field names. -/
theorem cellarItems_left_out :
    apprentice.view.canCreate "Bottle" (.object [("name", .text "b")]) = .ok true ∧
    apprentice.update "Cellar" (.int 1) [("bottles", .list [.object [("name", .text "b")]])] =
      .ok [("bottles", .object [])] ∧
    apprentice.update "Cellar" (.int 1) [("racks", .list [.object [("id", .int 5)]])] = .ok [] ∧
    apprentice.update "Cellar" (.int 1) [("caskId", .int 7), ("casks", .list [.object [("id", .int 8)]])] =
      .ok [("casks", .object [("connect", .object [("id", .int 7)])])] := ⟨rfl, rfl, rfl, rfl⟩

end Writer

end RecordGraph
