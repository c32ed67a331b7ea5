import RecordGraph.Proofs.Mutation.Linking
import RecordGraph.Proofs.Mutation.Tallies

/-!
# Nested changes

What is given inside the value of a relation that is updated, at any depth, is written with the changes to that record,
and no relation on the way to it is left out. A relation is left out where nothing in its record is worth writing: an
object that is no operation counts as nothing, also where it is the value of a scalar.
-/

namespace RecordGraph

/-- The fields that hold keys are scalars. -/
def Schema.KeysHeld (s : Schema) : Prop :=
  ∀ name e, s.entity name = .ok e → ∀ r ∈ e.relations, ∀ field, r.field? = some field → e.IsScalar field

theorem Schema.keysHeld_of_all {s : Schema} (h : (s.entities.all fun kv => kv.2.toOption.all fun e =>
    decide (∀ r ∈ e.relations, ∀ field ∈ r.field?, e.IsScalar field)) = true) : s.KeysHeld :=
  fun _ _ he => of_all h he

/-- The name of a relation holds the key of none. -/
theorem Schema.KeysHeld.free {s : Schema} {name key : String} {e : Entity} {r : Relation} (hk : s.KeysHeld)
    (ha : s.ScalarsApart) (he : s.entity name = .ok e) (hr : e.relation? key = some r) :
    e.relationForField? key = none := by
  cases hf : e.relationForField? key with
  | none => rfl
  | some r' =>
      have hheld : r'.field? = some key := by simpa using List.find?_some hf
      have hscalar := hk _ _ he r' (List.mem_of_find?_eq_some hf) key hheld
      rw [Entity.Apart.relation?_eq_none (ha _ _ he) hscalar] at hr
      cases hr

/-- A scalar has a value that a record is written for, and that is no object where it is the key of a relation. -/
structure Entity.Worth (e : Entity) (key : String) (v : Value) : Prop where
  scalar : e.IsScalar key
  meaningful : Payload.isMeaningful v = true
  flat : (e.relationForField? key).isSome = true → v.isObject = false

theorem Guard.merge_ne_nil {filter guard : Object} (h : filter ≠ []) : Guard.merge filter guard ≠ [] := by
  obtain ⟨kv, rest, rfl⟩ := List.exists_cons_of_ne_nil h
  have hkey : kv.1 ∈ (Guard.merge (kv :: rest) guard).keys := by
    unfold Guard.merge
    dsimp only
    split
    · exact Object.mem_keys_update.mpr (.inl List.mem_cons_self)
    · exact Object.mem_keys_set.mpr (.inr (Object.mem_keys_update.mpr (.inl List.mem_cons_self)))
  intro hnil
  rw [hnil] at hkey
  cases hkey

namespace Payload

theorem hasMeaning_of_get? {key : String} {v : Value} {body : Object} (h : Object.get? key body = some v)
    (hv : isMeaningful v = true) : hasMeaning body = true :=
  List.any_eq_true.mpr ⟨_, Object.mem_of_get? h, hv⟩

/-- Operations on records are worth writing if one of them is not empty. -/
theorem isMeaningful_of_mem {ops : Object} (op : String) (hop : op ∈ meaningful)
    (h : (ops.get op).isPresent = true) : isMeaningful (.object ops) = true :=
  List.any_eq_true.mpr ⟨op, hop, h⟩

end Payload

namespace Writer

variable (w : Writer)

/-- A body has the value of a scalar, or the connection that the key of a relation stands for. -/
def Carries (e : Entity) (key : String) (v : Value) (body : Object) : Prop :=
  match e.relationForField? key with
  | none => Object.get? key body = some v
  | some r => ∃ ops, w.connect r v = .ok ops ∧ Object.get? r.name body = some ops

/-- A body that is worked out of an item, whose relations may nest so many levels, bears its members and is linked by
the foreign keys that are given. -/
structure Brings (levels : Nat) (parent : Value) (e : Entity) (dropped : List String) (item body : Object) : Prop
    extends Bears (w.updateNested levels parent).Gives e dropped item body where
  linked : ∀ key ∉ dropped, ∀ r, e.relation? key = none → e.relationForField? key = some r → item.get key ≠ .null →
    ∃ ops, w.connect r (item.get key) = .ok ops ∧ Object.get? r.name body = some ops

/-- How a record is given as the value of a relation. -/
inductive Standing where
  | alone
  | listed

/-- A record that is given as the value of a relation, with the fields of it that are not written: on its own, or as an
item of a list that is not left out. -/
inductive GivenIn (r : Relation) : Standing → Value → List String → Object → Prop
  | alone {e omitted item} (he : w.view.schema.entity r.target = .ok e) (ho : w.view.omitted r.target = .ok omitted)
      (hplain : Payload.isOperation (.object item) = false) : GivenIn r .alone (.object item) (omitted ++ e.keys) item
  | listed {e omitted items item} (he : w.view.schema.entity r.target = .ok e)
      (ho : w.view.omitted r.target = .ok omitted) (hin : .object item ∈ items)
      (hkept : w.view.canCreate r.target .null = .ok true ∨
        ∀ k ∈ e.keys, e.relation? k = none ∧ Object.get item k ≠ .null) :
      GivenIn r .listed (.list items) (omitted ++ r.references ++ e.keys) item

/-- A record that is given inside a payload, at a path of relations that no foreign key beside them prevails over. -/
inductive GivenAt : String → List String → Object → List (String × Standing) → String → List String → Object → Prop
  | here {entity dropped item} : GivenAt entity dropped item [] entity dropped item
  | inside {entity dropped payload key standing path target left item e r v below inner}
      (he : w.view.schema.entity entity = .ok e) (hr : e.relation? key = some r) (hseen : key ∉ dropped)
      (halone : ∀ field, r.field? = some field → field ∉ payload.keys) (hv : Object.get? key payload = some v)
      (hin : w.GivenIn r standing v below inner) (h : GivenAt r.target below inner path target left item) :
      GivenAt entity dropped payload ((key, standing) :: path) target left item

/-- The changes to a record in the operations of a relation, or the body of a new item of a list. -/
inductive ChangesIn : Standing → Value → Object → Prop
  | alone {parts changes} (hu : Object.get? "update" parts = some (.object changes)) :
      ChangesIn .alone (.object [("upsert", .object parts)]) changes
  | upsert {ops entries entry changes} (hop : Object.get? "upsert" ops = some (.list entries))
      (hin : .object entry ∈ entries) (hu : Object.get? "update" entry = some (.object changes)) :
      ChangesIn .listed (.object ops) changes
  | update {ops entries entry changes} (hop : Object.get? "update" ops = some (.list entries))
      (hin : .object entry ∈ entries) (hu : Object.get? "data" entry = some (.object changes)) :
      ChangesIn .listed (.object ops) changes
  | create {ops entries body} (hop : Object.get? "create" ops = some (.list entries)) (hin : .object body ∈ entries) :
      ChangesIn .listed (.object ops) body

/-- The changes that stand in a body at a path of relations. -/
inductive ChangesAt : Object → List (String × Standing) → Object → Prop
  | here {body} : ChangesAt body [] body
  | inside {body key standing path ops inner changes} (hv : Object.get? key body = some ops)
      (hops : ChangesIn standing ops inner) (h : ChangesAt inner path changes) :
      ChangesAt body ((key, standing) :: path) changes

variable {w} {levels : Nat} {entity key : String} {r : Relation} {e : Entity} {parent above v : Value}
  {o : Option Value} {dropped pre : List String} {item prepared body : Object} {standing : Standing}

/-! ## Bodies -/

theorem Bears.mono {T : Relation → Value → Option Value → Prop} {more : List String} (hsub : dropped ⊆ more)
    (h : Bears T e dropped item body) : Bears T e more item body where
  plain key hseen := h.plain key fun hin => hseen (hsub hin)
  turned key hseen := h.turned key fun hin => hseen (hsub hin)

theorem Brings.mono {more : List String} (hsub : dropped ⊆ more) (h : w.Brings levels parent e dropped item body) :
    w.Brings levels parent e more item body where
  toBears := h.toBears.mono hsub
  linked key hseen := h.linked key fun hin => hseen (hsub hin)

theorem connect_meaningful {ops : Value} (hflat : v.isObject = false) (h : w.connect r v = .ok ops) :
    Payload.isMeaningful ops = true := by
  obtain ⟨filter, hfilter, h⟩ := bind_ok_iff.mp h
  obtain rfl := pure_ok_iff.mp h
  obtain ⟨key, _, hguarded⟩ := connectWhere_single hflat hfilter
  obtain ⟨guard, _, hguarded⟩ := bind_ok_iff.mp hguarded
  obtain rfl := pure_ok_iff.mp hguarded
  refine Payload.isMeaningful_of_mem "connect" (by decide) ?_
  rw [Object.get_single]
  cases hmerged : Guard.merge [(key, v)] guard with
  | nil => exact absurd hmerged (Guard.merge_ne_nil (List.cons_ne_nil _ _))
  | cons => rfl

/-- What is worth writing is in the body, and the body is worth writing. -/
theorem Brings.carries (ha : e.Apart) (h : w.Brings levels parent e dropped item body) (hseen : key ∉ dropped)
    (hv : Object.get? key item = some v) (hworth : e.Worth key v) :
    w.Carries e key v body ∧ Payload.hasMeaning body = true := by
  have hplain := ha.relation?_eq_none hworth.scalar
  have hget : item.get key = v := by rw [Object.get, hv]; rfl
  unfold Carries
  cases hf : e.relationForField? key with
  | none =>
      have hbody : Object.get? key body = some v := (h.plain key hseen hplain hf).trans hv
      exact ⟨hbody, Payload.hasMeaning_of_get? hbody hworth.meaningful⟩
  | some r =>
      have hne : item.get key ≠ .null := by
        rw [hget]
        rintro rfl
        exact Bool.noConfusion hworth.meaningful
      obtain ⟨ops, hc, hbody⟩ := h.linked key hseen r hplain hf hne
      rw [hget] at hc
      have hops := connect_meaningful (hworth.flat (by rw [hf]; rfl)) hc
      exact ⟨⟨ops, hc, hbody⟩, Payload.hasMeaning_of_get? hbody hops⟩

/-- A body that is worked out in the two loops brings the members of its item. -/
theorem brings_of_loops {updating : Bool} (hs : (e.relations.map (·.name)).Nodup) (hu : e.Unchained)
    (he : w.view.schema.entity entity = .ok e) (hn : item.keys.Nodup)
    (hp : w.updateItem (w.updateNested levels parent) entity (item.without pre) = .ok prepared)
    (h : w.linkForeignKeys entity updating (prepared.without dropped) = .ok body) :
    w.Brings levels parent e (pre ++ dropped) item body where
  toBears := (bears_of_loops hs he (Object.nodup_keys_without hn) (fun _ _ _ hg => hg) hp h).of_without
  linked key hseen r hplain hf hne := by
    have hkept : Object.get? key (prepared.without dropped) = Object.get? key item :=
      calc Object.get? key (prepared.without dropped)
        _ = Object.get? key prepared := Object.get?_without fun hin => hseen (List.mem_append_right _ hin)
        _ = Object.get? key (item.without pre) := updateItem_keeps he hp (.inl hplain)
        _ = Object.get? key item := Object.get?_without fun hin => hseen (List.mem_append_left _ hin)
    have hvalue : Object.get (prepared.without dropped) key = item.get key := Object.get_eq_of_get? hkept
    have hprepared : (prepared.without dropped).keys.Nodup :=
      Object.nodup_keys_without (updateItem_ends he (Object.nodup_keys_without hn) hp).1
    have hin : key ∈ (prepared.without dropped).keys :=
      List.mem_map_of_mem (Object.mem_of_get_ne_null (hvalue ▸ hne))
    have hends := (linkForeignKeys_ends hs hu he hprepared h).2 r.name
    obtain ⟨ops, hc, hops⟩ := hends.connected (Entity.roles_apart hs hu Entity.foreign_foreignRole) hin
      (Entity.foreignRole_of_some hf) (hvalue ▸ hne)
    exact ⟨ops, hvalue ▸ hc, hops⟩

/-! ## Values of relations -/

/-- Whatever a record is worked into, something in it is worth writing. -/
structure Speaks (w : Writer) (entity : String) (e : Entity) (dropped : List String) (item : Object) : Prop where
  body : ∀ {levels parent body}, w.Brings levels parent e dropped item body → Payload.hasMeaning body = true
  prepared : ∀ {levels parent prepared}, w.updateItem (w.updateNested levels parent) entity item = .ok prepared →
    ∃ k ∈ prepared.keys, k ∉ dropped

theorem Speaks.ne_nil (he : w.view.schema.entity entity = .ok e) (h : w.Speaks entity e dropped item) : item ≠ [] := by
  rintro rfl
  have hnil : w.updateItem (w.updateNested 0 .null) entity [] = .ok [] := bind_ok_iff.mpr ⟨e, he, rfl⟩
  obtain ⟨k, hin, _⟩ := h.prepared hnil
  cases hin

/-- An entry of a list is found under its operation. -/
theorem get?_listOperations {op : String} {placed : List (Option (String × Value))} {entry : Value}
    (hop : op ∈ listKinds) (h : some (op, entry) ∈ placed) :
    Object.get? op (listOperations placed) = some (.list (entriesOf op placed)) := by
  have hne : entriesOf op placed ≠ [] := List.ne_nil_of_mem (mem_entriesOf.mpr h)
  have hkinds : ∀ kinds : List String, op ∈ kinds → Object.get? op (kinds.flatMap fun op =>
      Placement.member op (entriesOf op placed)) = some (.list (entriesOf op placed)) := by
    intro kinds hin
    induction kinds with
    | nil => cases hin
    | cons kind kinds ih =>
        rw [List.flatMap_cons, Object.get?_append]
        by_cases hkind : kind = op
        · subst hkind
          rw [Placement.member, if_neg (by simpa using hne), Object.get?, if_pos rfl]
          rfl
        · have hnone : Object.get? op (Placement.member kind (entriesOf kind placed)) = none := by
            rw [Object.get?_eq_none_iff]
            intro hkey
            obtain ⟨kv, hkv, hname⟩ := List.mem_map.mp hkey
            exact hkind ((Placement.mem_member hkv).symm.trans hname)
          rw [hnone]
          exact ih ((List.mem_cons.mp hin).resolve_left (Ne.symm hkind))
  exact hkinds listKinds hop

/-- The operations for a list with an entry are worth writing. -/
theorem listOperations_meaningful {op : String} {placed : List (Option (String × Value))} {entry : Value}
    (hop : op ∈ listKinds) (h : some (op, entry) ∈ placed) :
    Payload.isMeaningful (.object (listOperations placed)) = true := by
  have hmeaningful : op ∈ Payload.meaningful := by
    have hsub : listKinds ⊆ Payload.meaningful := by decide
    exact hsub hop
  refine Payload.isMeaningful_of_mem op hmeaningful ?_
  rw [Object.get, get?_listOperations hop h]
  cases hentries : entriesOf op placed with
  | nil => exact absurd (mem_entriesOf.mpr h) (hentries ▸ List.not_mem_nil)
  | cons => rfl

theorem GivenIn.declared {below : List String} {inner : Object} (h : w.GivenIn r standing v below inner) :
    ∃ e, w.view.schema.entity r.target = .ok e := by
  cases h with
  | alone he | listed he => exact ⟨_, he⟩

theorem GivenIn.proper {below : List String} {inner : Object} (h : w.GivenIn r standing v below inner) (hp : v.Proper) :
    (Value.object inner).Proper := by
  cases h with
  | alone => exact hp
  | listed _ _ hin => exact hp.item hin

theorem GivenIn.nests {below : List String} {inner : Object} (h : w.GivenIn r standing v below inner) (hne : inner ≠ []) :
    v.nests = true := by
  cases h with
  | alone =>
      obtain ⟨_, _, rfl⟩ := List.exists_cons_of_ne_nil hne
      rfl
  | listed _ _ hin =>
      obtain ⟨_, _, rfl⟩ := List.exists_cons_of_ne_nil (List.ne_nil_of_mem hin)
      rfl

/-! ## Updates -/

section
variable (hs : w.view.schema.Distinct) (ha : w.view.schema.ScalarsApart) (hk : w.view.schema.KeysHeld)
include hs ha hk

/-- The changes to a record itself bring the members of the payload. -/
theorem update_brings {payload out : Object} {id : Value} {omitted : List String}
    (he : w.view.schema.entity entity = .ok e) (homitted : w.view.omitted entity = .ok omitted)
    (hn : payload.keys.Nodup) (h : w.update entity id payload = .ok out) :
    w.Brings w.levels id e (omitted ++ w.auditFields ++ e.keys) payload out := by
  obtain ⟨_, ho, _, hends⟩ := update_ends (Entity.topRole_apart (hs _ _ he) (ha _ _ he)) he hn h
  cases homitted.symm.trans ho
  have happart : e.Apart := ha _ _ he
  refine { plain := fun key hseen hplain hfree => ?_, turned := fun key hseen r hr _ halone hnests => ?_,
           linked := fun key hseen r hplain hf hne => ?_ }
  · exact ((hends key).kept (Entity.topRole_of_none hplain hfree) fun field _ =>
      Entity.ne_of_topRole hplain field).trans (Object.get?_without hseen)
  · have hget := Object.get?_without (o := payload) hseen
    have hvalue := Object.get_eq_of_get? hget
    have hin : key ∈ (payload.without (omitted ++ w.auditFields ++ e.keys)).keys :=
      List.mem_map_of_mem (Object.mem_of_get_ne_null (Value.ne_null_of_nests (hvalue ▸ hnests)))
    have hown := (hends key).owned (fun field hfield r' hr' hname => by
      obtain ⟨kv, hkv, rfl⟩ := List.mem_map.mp hfield
      exact halone _ (Entity.field_of_foreign (hs _ _ he) hr (Entity.foreign_topRole hr') hname)
        (List.mem_map_of_mem (Object.mem_of_mem_without hkv))) hin
    exact hvalue ▸ hown.turned (Entity.topRole_of_relation happart hr) (hvalue ▸ hnests)
  · have hvalue := Object.get_eq_of_get? (Object.get?_without (o := payload) hseen)
    have hheld : r.field? = some key := by simpa using List.find?_some hf
    have hscalar : e.IsScalar key := hk _ _ he r (List.mem_of_find?_eq_some hf) key hheld
    have hrole : e.topRole key = .foreign r := Entity.topRole_of_foreign hscalar hf
    have hin : key ∈ (payload.without (omitted ++ w.auditFields ++ e.keys)).keys :=
      List.mem_map_of_mem (Object.mem_of_get_ne_null (hvalue ▸ hne))
    obtain ⟨ops, hc, hops⟩ := (hends r.name).connected (Entity.topRole_apart (hs _ _ he) happart) hin hrole
      (hvalue ▸ hne)
    exact ⟨ops, hvalue ▸ hc, hops⟩

theorem updateOne_changes {inner : Object} {omitted : List String} (he : w.view.schema.entity r.target = .ok e)
    (homitted : w.view.omitted r.target = .ok omitted) (hplain : Payload.isOperation (.object inner) = false)
    (hn : inner.keys.Nodup) (hspeaks : w.Speaks r.target e (omitted ++ e.keys) inner)
    (h : w.updateOne (w.updateNested levels above) r (.object inner) = .ok o) :
    ∃ parts changes, o = some (.object [("upsert", .object parts)]) ∧
      Object.get? "update" parts = some (.object changes) ∧
      w.Brings levels above e (omitted ++ e.keys) inner changes := by
  unfold updateOne at h
  rw [if_neg (Bool.eq_false_iff.mp hplain)] at h
  obtain ⟨_, _, h⟩ := bind_ok_iff.mp h
  obtain ⟨_, ho, h⟩ := bind_ok_iff.mp h
  obtain ⟨item, hitem, h⟩ := bind_ok_iff.mp h
  obtain ⟨processed, hp, h⟩ := bind_ok_iff.mp h
  obtain ⟨whole, hwhole, h⟩ := bind_ok_iff.mp h
  obtain ⟨keys, hkeys, h⟩ := bind_ok_iff.mp h
  obtain ⟨changes, hchanges, hout⟩ := bind_ok_iff.mp h
  obtain rfl := pure_ok_iff.mp hout
  cases homitted.symm.trans ho
  cases checkedItem_ok hitem
  rw [keys_of_entity he hkeys] at hchanges
  have hbrings := brings_of_loops (hs _ _ he) (Entity.Apart.unchained (ha _ _ he) (hk _ _ he)) he hn hp hchanges
  rw [if_pos (hspeaks.body hbrings)]
  cases hmeaning : Payload.hasMeaning whole with
  | true => exact ⟨_, changes, rfl, rfl, hbrings⟩
  | false => exact ⟨_, changes, rfl, rfl, hbrings⟩

/-- An item of a list that has more than its key becomes an entry with the changes to it, or a new item. -/
theorem enters_changes {t : w.ListTerms r} {inner : Object} {entry : Option (String × Value)} (hn : inner.keys.Nodup)
    (hkept : w.view.canCreate r.target .null = .ok true ∨
      ∀ k ∈ t.target.keys, t.target.relation? k = none ∧ Object.get inner k ≠ .null)
    (hspeaks : w.Speaks r.target t.target (t.dropped ++ t.target.keys) inner)
    (hp : w.updateItem (w.updateNested levels above) r.target inner = .ok prepared)
    (h : t.Enters parent prepared entry) :
    ∃ op value, entry = some (op, value) ∧ op ∈ listKinds ∧
      ∃ body, w.Brings levels above t.target (t.dropped ++ t.target.keys) inner body ∧
        ∀ ops entries, Object.get? op ops = some (.list entries) → value ∈ entries →
          ChangesIn .listed (.object ops) body := by
  have hbrings : ∀ {updating left body}, w.linkForeignKeys r.target updating (prepared.without left) = .ok body →
      w.Brings levels above t.target left inner body := by
    intro updating left body hlink
    have hwhole : w.updateItem (w.updateNested levels above) r.target (inner.without []) = .ok prepared := by
      simpa [Object.without] using hp
    have hunchained := Entity.Apart.unchained (ha _ _ t.target_eq) (hk _ _ t.target_eq)
    exact brings_of_loops (hs _ _ t.target_eq) hunchained t.target_eq hn hwhole hlink
  cases h with
  | connect hkind =>
      obtain ⟨k, hin, hseen⟩ := hspeaks.prepared hp
      refine absurd (List.mem_append_right _ ?_) hseen
      have hkey := itemKind_connect hkind k hin
      cases hjoin : t.joinKey with
      | none => rwa [hjoin] at hkey
      | some names =>
          have hkeys := (joinKey_some (hjoin ▸ t.joinKey_eq)).1
          rw [hjoin] at hkey
          exact keys_of_entity t.target_eq hkeys ▸ hkey
  | upsert hkind hguard hentry =>
      obtain ⟨condition, _, hentry⟩ := bind_ok_iff.mp hentry
      obtain ⟨changes, hchanges, hentry⟩ := bind_ok_iff.mp hentry
      rw [Object.without_without] at hchanges
      refine ⟨_, _, rfl, by cases t.canCreate <;> decide, changes, hbrings hchanges, ?_⟩
      cases hcan : t.canCreate with
      | true =>
          rw [if_pos hcan] at hentry
          obtain ⟨whole, _, hentry⟩ := bind_ok_iff.mp hentry
          obtain rfl := pure_ok_iff.mp hentry
          exact fun ops entries hop hin => .upsert hop hin rfl
      | false =>
          rw [if_neg (Bool.eq_false_iff.mp hcan)] at hentry
          obtain rfl := pure_ok_iff.mp hentry
          exact fun ops entries hop hin => .update hop hin rfl
  | create hkind _ hbody =>
      refine ⟨_, _, rfl, by decide, _, (hbrings hbody).mono (List.subset_append_left _ _), ?_⟩
      exact fun ops entries hop hin => .create hop hin
  | left hkind hcan =>
      rcases hkept with hmay | hwhole
      · rw [t.canCreate_eq, hcan] at hmay
        cases hmay
      · obtain ⟨_, k, hkey, hnull⟩ := itemKind_create hkind
        obtain ⟨hplain, hne⟩ := hwhole k hkey
        exact absurd ((Object.get_eq_of_get? (updateItem_keeps t.target_eq hp (.inl hplain))).symm.trans hnull) hne

/-- A record that has something worth writing is changed, alone or as an item of a list. -/
theorem GivenIn.changed {below : List String} {inner : Object} (hin : w.GivenIn r standing v below inner) (hp : v.Proper)
    (he : w.view.schema.entity r.target = .ok e) (hspeaks : w.Speaks r.target e below inner)
    (hg : (w.updateNested levels parent).Gives r v o) :
    ∃ ops body levels' parent', o = some ops ∧ Payload.isMeaningful ops = true ∧ ChangesIn standing ops body ∧
      w.Brings levels' parent' e below inner body := by
  cases hin with
  | @alone _ omitted inner he' homitted hplain =>
      cases entity_unique he he'
      cases levels with
      | zero => cases hg
      | succ levels =>
          obtain ⟨parts, changes, rfl, hu, hbrings⟩ := updateOne_changes hs ha hk he homitted hplain hp.keys hspeaks hg
          refine ⟨_, changes, levels, .null, rfl, ?_, .alone hu, hbrings⟩
          refine Payload.isMeaningful_of_mem "upsert" (by decide) ?_
          rw [Object.get_single]
          cases parts with
          | nil => cases hu
          | cons => rfl
  | @listed _ omitted items inner he' homitted hitem hkept =>
      cases entity_unique he he'
      cases levels with
      | zero => cases hg
      | succ levels =>
          obtain ⟨ops, hops, rfl⟩ := map_ok_iff.mp hg
          obtain ⟨t, placed, henters, rfl⟩ := updateMany_enters hops
          cases entity_unique he t.target_eq
          cases homitted.symm.trans t.omitted_eq
          obtain ⟨entry, hplaced, item, prepared, hchecked, hprepared, henter⟩ := forall₂_partner henters hitem
          cases checkedItem_ok hchecked
          obtain ⟨op, value, rfl, hop, body, hbrings, hin⟩ :=
            enters_changes hs ha hk (hp.item hitem).keys hkept hspeaks hprepared henter
          have hfound := get?_listOperations hop hplaced
          exact ⟨_, body, levels, .null, rfl, listOperations_meaningful hop hplaced,
            hin _ _ hfound (mem_entriesOf.mpr hplaced), hbrings⟩

/-- What is worth writing in a record that is given at a path is written with the changes to that record. -/
theorem GivenAt.changes {payload : Object} {path : List (String × Standing)} {target : String} {left : List String}
    {te : Entity}
    (hgiven : w.GivenAt entity dropped payload path target left item) (hp : (Value.object payload).Proper)
    (ht : w.view.schema.entity target = .ok te) (hseen : key ∉ left) (hv : Object.get? key item = some v)
    (hworth : te.Worth key v) {e : Entity} (he : w.view.schema.entity entity = .ok e) :
    w.Speaks entity e dropped payload ∧ ∀ {levels parent body}, w.Brings levels parent e dropped payload body →
      ∃ changes, ChangesAt body path changes ∧ w.Carries te key v changes := by
  induction hgiven generalizing e with
  | here =>
      obtain rfl := entity_unique he ht
      have happart : Entity.Apart _ := ha _ _ he
      refine ⟨⟨fun hb => (hb.carries happart hseen hv hworth).2, fun hprepared => ?_⟩, fun hb => ?_⟩
      · have hkept := updateItem_keeps he hprepared (.inl (happart.relation?_eq_none hworth.scalar))
        exact ⟨key, List.mem_map_of_mem (Object.mem_of_get? (hkept.trans hv)), hseen⟩
      · exact ⟨_, .here, (hb.carries happart hseen hv hworth).1⟩
  | @inside entity dropped payload at_ standing path target left item _ r value below inner he' hr hat halone hvalue hin
      h ih =>
      obtain rfl := entity_unique he' he
      have hget : payload.get at_ = value := by rw [Object.get, hvalue]; rfl
      have hproper : value.Proper := hget ▸ hp.get at_
      obtain ⟨inner', hinner⟩ := hin.declared
      obtain ⟨hspeaks, hbelow⟩ := ih (hin.proper hproper) ht hseen hv hinner
      have hnests : (payload.get at_).nests = true := hget ▸ hin.nests (hspeaks.ne_nil hinner)
      have hfree := hk.free ha he hr
      have hchanged : ∀ {levels parent o}, (w.updateNested levels parent).Gives r (payload.get at_) o → _ :=
        fun hg => hin.changed hs ha hk hproper hinner hspeaks (hget ▸ hg)
      refine ⟨⟨fun hb => ?_, fun hprepared => ?_⟩, fun hb => ?_⟩
      · obtain ⟨ops, _, _, _, hops, hmeaningful, _⟩ := hchanged (hb.turned at_ hat r hr hfree halone hnests)
        exact Payload.hasMeaning_of_get? hops hmeaningful
      · have hkey : at_ ∈ payload.keys := List.mem_map_of_mem (Object.mem_of_get? hvalue)
        have hown := ((updateItem_ends he hp.keys hprepared).2 at_).owned
          (fun _ _ _ hr' => absurd hr' Entity.not_foreign_relationRole) hkey
        obtain ⟨ops, _, _, _, hops, _⟩ := hchanged (hown.turned (Entity.relationRole_of_some hr) hnests)
        exact ⟨at_, List.mem_map_of_mem (Object.mem_of_get? hops), hat⟩
      · obtain ⟨ops, body, _, _, hops, _, hin, hbrings⟩ := hchanged (hb.turned at_ hat r hr hfree halone hnests)
        obtain ⟨changes, hchanges, hcarries⟩ := hbelow hbrings
        exact ⟨changes, .inside hops hin hchanges, hcarries⟩

end

/-- What is given as the value of a scalar of a record inside a payload, and is neither null nor an object without
operations, is written: the relations on the way to the record are all there, and the changes to the record have the
value, or the connection that it is the key of. -/
theorem nested_changes_kept (w : Writer) (hs : w.view.schema.Distinct) (ha : w.view.schema.ScalarsApart)
    (hk : w.view.schema.KeysHeld) {entity target key : String} {e te : Entity} {omitted left : List String}
    {payload item out : Object} {path : List (String × Standing)} {id v : Value} (he : w.view.schema.entity entity = .ok e)
    (homitted : w.view.omitted entity = .ok omitted) (hp : (Value.object payload).Proper)
    (hgiven : w.GivenAt entity (omitted ++ w.auditFields ++ e.keys) payload path target left item)
    (ht : w.view.schema.entity target = .ok te) (hseen : key ∉ left) (hv : Object.get? key item = some v)
    (hworth : te.Worth key v) (h : w.update entity id payload = .ok out) :
    ∃ changes, ChangesAt out path changes ∧ w.Carries te key v changes :=
  (hgiven.changes hs ha hk hp ht hseen hv hworth he).2 (update_brings hs ha hk he homitted hp.keys h)

/-! Artists of a studio, who have a mentor each and a profile of any shape. -/

def studioSchema : Schema := ⟨[
  ("Studio", .ok ⟨"Studio", ["id"], [⟨"id", .scalar, "int", false, false, true, false⟩,
      ⟨"artists", .relation, "Artist", false, false, false, true⟩],
    [⟨"artists", "Artist", .many, [], ["studioId"]⟩]⟩),
  ("Artist", .ok ⟨"Artist", ["id"], [⟨"id", .scalar, "int", false, false, true, false⟩,
      ⟨"profile", .scalar, "json", true, false, false, false⟩, ⟨"studioId", .scalar, "int", true, false, false, false⟩,
      ⟨"mentorId", .scalar, "int", true, false, false, false⟩,
      ⟨"studio", .relation, "Studio", true, false, false, false⟩,
      ⟨"mentor", .relation, "Artist", true, false, false, false⟩],
    [⟨"studio", "Studio", .one, ["studioId"], ["id"]⟩, ⟨"mentor", "Artist", .one, ["mentorId"], ["id"]⟩]⟩)]⟩

def studioManager : Writer := { view := ⟨studioSchema, ⟨[]⟩, .principal {}⟩ }

theorem studioSchema_distinct : studioSchema.Distinct := Schema.distinct_of_all (by decide)

theorem studioSchema_scalarsApart : studioSchema.ScalarsApart := Schema.scalarsApart_of_all (by decide)

theorem studioSchema_keysHeld : studioSchema.KeysHeld := Schema.keysHeld_of_all (by decide)

/-- The mentor of an artist in a list moves to another studio. -/
def movedMentor : Object :=
  [("artists", .list [.object [("id", .int 2), ("mentor", .object [("studioId", .int 5)])]])]

def mentorMove : Object := [("studio", .object [("connect", .object [("id", .int 5)])])]

def mentorChanges : Object := [("mentor", .object [("upsert", .object
  [("create", .object mentorMove), ("update", .object mentorMove)])])]

def movedMentorChanges : Object := [("artists", .object [("upsert", .list [.object
  [("where", .object [("id", .int 2)]), ("create", .object (("id", .int 2) :: mentorChanges)),
    ("update", .object mentorChanges)]])])]

/-- The profile of a mentor, an object of its own. -/
def profiledMentor : Object := [("mentor", .object [("profile", .object [("theme", .text "dark")])])]

theorem movedMentor_given : studioManager.GivenAt "Studio" ([] ++ studioManager.auditFields ++ ["id"]) movedMentor
    [("artists", .listed), ("mentor", .alone)] "Artist" ([] ++ ["id"]) [("studioId", .int 5)] := by
  refine .inside rfl rfl (by decide) nofun rfl (.listed rfl rfl (List.mem_singleton.mpr rfl) (.inl rfl)) ?_
  refine .inside rfl rfl (by decide) (fun field hfield => ?_) rfl (.alone rfl rfl rfl) .here
  cases hfield
  decide

/-- A mentor two relations further in is moved. -/
theorem movedMentor_kept :
    studioSchema.Distinct ∧ studioSchema.ScalarsApart ∧ studioSchema.KeysHeld ∧
    let studio := (studioSchema.entity "Studio").toOption.getD default
    let artist := (studioSchema.entity "Artist").toOption.getD default
    studioSchema.entity "Studio" = .ok studio ∧ studioManager.view.omitted "Studio" = .ok [] ∧
    (Value.object movedMentor).Proper ∧
    studioManager.GivenAt "Studio" ([] ++ studioManager.auditFields ++ ["id"]) movedMentor
      [("artists", .listed), ("mentor", .alone)] "Artist" ([] ++ ["id"]) [("studioId", .int 5)] ∧
    studioSchema.entity "Artist" = .ok artist ∧ "studioId" ∉ [] ++ ["id"] ∧
    Object.get? "studioId" [("studioId", .int 5)] = some (Value.int 5) ∧ artist.Worth "studioId" (.int 5) ∧
    studioManager.update "Studio" (.int 1) movedMentor = .ok movedMentorChanges ∧
    ∃ changes, ChangesAt movedMentorChanges [("artists", .listed), ("mentor", .alone)] changes ∧
      studioManager.Carries artist "studioId" (.int 5) changes := by
  have hworth : ((studioSchema.entity "Artist").toOption.getD default).Worth "studioId" (.int 5) :=
    ⟨rfl, rfl, fun _ => rfl⟩
  have hp : (Value.object movedMentor).Proper := by decide
  have hu : studioManager.update "Studio" (.int 1) movedMentor = .ok movedMentorChanges := rfl
  refine ⟨studioSchema_distinct, studioSchema_scalarsApart, studioSchema_keysHeld, rfl, rfl, hp, movedMentor_given, rfl,
    by decide, rfl, hworth, hu, ?_⟩
  exact nested_changes_kept studioManager studioSchema_distinct studioSchema_scalarsApart studioSchema_keysHeld rfl rfl
    hp movedMentor_given rfl (by decide) rfl hworth hu

/-- The profile of a mentor is a scalar and not null, and the mentor is left out with it. -/
theorem profiledMentor_lost :
    studioSchema.Distinct ∧ studioSchema.ScalarsApart ∧ studioSchema.KeysHeld ∧
    studioManager.GivenAt "Artist" ([] ++ studioManager.auditFields ++ ["id"]) profiledMentor [("mentor", .alone)]
      "Artist" ([] ++ ["id"]) [("profile", .object [("theme", .text "dark")])] ∧
    ((studioSchema.entity "Artist").toOption.getD default).IsScalar "profile" ∧ "profile" ∉ [] ++ ["id"] ∧
    studioManager.update "Artist" (.int 1) profiledMentor = .ok [] ∧
    ¬ ∃ changes, ChangesAt [] [("mentor", .alone)] changes := by
  refine ⟨studioSchema_distinct, studioSchema_scalarsApart, studioSchema_keysHeld, ?_, rfl, by decide, rfl, ?_⟩
  · refine .inside rfl rfl (by decide) (fun field hfield => ?_) rfl (.alone rfl rfl rfl) .here
    cases hfield
    decide
  · rintro ⟨changes, h⟩
    cases h with
    | inside hv => cases hv

end Writer

end RecordGraph
