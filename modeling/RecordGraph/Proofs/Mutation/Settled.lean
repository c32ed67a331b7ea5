import RecordGraph.Proofs.Mutation.Declared
import RecordGraph.Proofs.Mutation.Part

/-!
# Settled values

While a payload is transformed, a value of a relation is still as it was given or is already turned
into operations. What is asked of the parts of operations and what is known of given values vary from
one property to the next; how the values get from one to the other does not.
-/

namespace RecordGraph

namespace Part

theorem ofItem_eq_nil {op : String} {v : Value} (h : op ∉ Payload.operations) : ofItem op v = [] := by
  simp only [Payload.operations, List.mem_cons, List.not_mem_nil, or_false, not_or] at h
  obtain ⟨hconnect, hcreate, -, -, hupdate, hupsert, -, -, -, heither⟩ := h
  unfold ofItem
  split
  · exact absurd rfl hconnect
  · exact absurd rfl hcreate
  · unfold members
    split
    · exact absurd rfl heither
    · exact absurd rfl hupsert
    · exact absurd rfl hupdate
    · rfl
  · rfl

/-- Only operations have parts. -/
theorem ofOperations_eq_nil {ops : Object} (h : Payload.isOperation (.object ops) = false) :
    ofOperations ops = [] := by
  simp only [Payload.isOperation, List.any_eq_false, Object.contains, Option.isSome_iff_ne_none, ne_eq,
    not_not, Object.get?_eq_none_iff] at h
  simp only [ofOperations, List.flatMap_eq_nil_iff]
  rintro ⟨op, v⟩ hm item _
  exact ofItem_eq_nil fun hop => h op hop (List.mem_map.mpr ⟨_, hm, rfl⟩)

end Part

namespace Writer

variable (w : Writer) (P : Relation → Part → Prop) (G : Relation → Value → Prop)

/-- All parts in a body are as asked, at any depth. -/
def Holds (entity : String) (body : Object) : Prop :=
  ∀ r part, Occurs w.view.schema entity body r part → P r part

/-- All parts in the value of a relation are as asked. -/
def HoldsUnder (r : Relation) (v : Value) : Prop :=
  ∀ ops, v = .object ops → ∀ part ∈ Part.ofOperations ops,
    P r part ∧ ∀ inner, part.body? = some (.object inner) → w.Holds P r.target inner

/-- The value of a relation is as it was given or holds operations with parts as asked. -/
def Settled (r : Relation) (v : Value) : Prop :=
  w.HoldsUnder P r v ∧ (Payload.isOperation v = false → G r v)

def SettledBody (entity : String) (body : Object) : Prop :=
  ∀ key v r, (key, v) ∈ body → w.view.schema.relation? entity key = .ok (some r) → w.Settled P G r v

/-- What the writer asks the rules for is as asked of the parts that come of it, of which bodies are
closed under the schema, and what stands in a given value was given. -/
structure Grants : Prop where
  plain {r v} : G r v → Payload.isOperation v = false
  empty {r} : G r (.object [])
  inside {r v item key r' v'} : G r v → .object item ∈ v.asItems →
    w.view.schema.relation? r.target key = .ok (some r') → (key, v') ∈ item → G r' v'
  /-- A foreign key is found by its own name and connected under the name of the relation. -/
  linked {entity e key r r' condition filter} : w.view.schema.entity entity = .ok e →
    e.relationForField? key = some r → w.view.schema.relation? entity r.name = .ok (some r') →
    w.guarded r.target condition = .ok filter → P r' (.connected (.object filter))
  connected {r condition filter} : w.guarded r.target condition = .ok filter →
    P r (.connected (.object filter))
  created {r payload body} : w.view.canCreate r.target payload = .ok true → w.Closed r.target body →
    P r (.created (.object body))
  updated {r guard condition} : w.updateGuard r.target = .ok guard →
    P r (.updated (.object (Guard.merge condition guard)))
  changed {r guard body} : w.updateGuard r.target = .ok guard → w.Closed r.target body →
    P r (.changed (.object body))
  changedOne {r item body} : G r (.object item) → item ≠ [] →
    w.view.canCreate r.target (.object item) = .ok true → w.Closed r.target body →
    P r (.changed (.object body))

variable {w} {P} {G} {entity : String} {body more : Object} {key : String} {r : Relation} {v : Value}

theorem holds_iff : w.Holds P entity body ↔ ∀ key v r, (key, v) ∈ body →
    w.view.schema.relation? entity key = .ok (some r) → w.HoldsUnder P r v := by
  constructor
  · rintro h key _ r hm hr ops rfl part hp
    refine ⟨h r part (.here hr hm hp), fun inner hb r' part' ho => ?_⟩
    exact h r' part' (.inside hr hm hp hb ho)
  · intro h r part ho
    cases ho with
    | here hr hm hp => exact (h _ _ _ hm hr _ rfl _ hp).1
    | inside hr hm hp hb ho => exact (h _ _ _ hm hr _ rfl _ hp).2 _ hb _ _ ho

theorem SettledBody.holds (h : w.SettledBody P G entity body) : w.Holds P entity body :=
  holds_iff.mpr fun key v r hm hr => (h key v r hm hr).1

/-- The value that is found under a key. -/
theorem SettledBody.get (h : w.SettledBody P G entity body) (hv : (body.get key).nests = true)
    (r : Relation) (hr : w.view.schema.relation? entity key = .ok (some r)) : w.Settled P G r (body.get key) :=
  h _ _ r (Object.mem_of_get_ne_null (Value.ne_null_of_nests hv)) hr

theorem SettledBody.mono (h : w.SettledBody P G entity body) (hsub : more ⊆ body) :
    w.SettledBody P G entity more :=
  fun key v r hm hr => h key v r (hsub hm) hr

theorem SettledBody.erase (h : w.SettledBody P G entity body) :
    w.SettledBody P G entity (Object.erase key body) :=
  h.mono fun _ hm => Object.mem_of_mem_erase hm

theorem SettledBody.without {dropped : List String} (h : w.SettledBody P G entity body) :
    w.SettledBody P G entity (Object.without body dropped) :=
  h.mono fun _ hm => Object.mem_of_mem_without hm

theorem SettledBody.set (h : w.SettledBody P G entity body)
    (hv : ∀ r, w.view.schema.relation? entity key = .ok (some r) → w.Settled P G r v) :
    w.SettledBody P G entity (Object.set key v body) := by
  intro key' v' r hm hr
  rcases Object.mem_of_mem_set hm with he | hm
  · cases he; exact hv r hr
  · exact h key' v' r hm hr

/-- What is no operation has no parts. -/
theorem settled_of_given (hplain : Payload.isOperation v = false) (h : G r v) : w.Settled P G r v := by
  refine ⟨fun ops he part hp => ?_, fun _ => h⟩
  subst he
  rw [Part.ofOperations_eq_nil hplain] at hp
  cases hp

/-- Operations are settled if their parts are as asked and their bodies are settled. -/
theorem settled_operations {ops : Object} (hempty : G r (.object []))
    (hk : ∀ kv ∈ ops, kv.1 ∈ Payload.operations)
    (hp : ∀ part ∈ Part.ofOperations ops, P r part ∧
      ∀ inner, part.body? = some (.object inner) → w.SettledBody P G r.target inner) :
    w.Settled P G r (.object ops) := by
  refine ⟨fun ops' he part hpart => ?_, fun hno => ?_⟩
  · cases he
    exact ⟨(hp part hpart).1, fun inner hb => ((hp part hpart).2 inner hb).holds⟩
  · cases ops with
    | nil => exact hempty
    | cons kv rest =>
        simp only [Payload.isOperation, List.any_eq_false] at hno
        have hin : Object.contains (kv :: rest) kv.1 = true := by
          simp [Object.contains, Object.get?]
        exact absurd hin (hno kv.1 (hk kv (by simp)))

theorem connectWhere_guarded {filter : Object} (h : w.connectWhere r v = .ok filter) :
    ∃ condition, w.guarded r.target condition = .ok filter := by
  obtain ⟨keys, _, h⟩ := bind_ok_iff.mp h
  split at h
  · split at h <;> exact ⟨_, h⟩
  · obtain ⟨key, _, h⟩ := bind_ok_iff.mp h
    exact ⟨_, h⟩

/-- A connection is the one of a guarded condition. -/
theorem connect_guarded {ops : Value} (h : w.connect r v = .ok ops) :
    ∃ condition filter, w.guarded r.target condition = .ok filter ∧
      ops = .object [("connect", .object filter)] := by
  obtain ⟨filter, hf, he⟩ := bind_ok_iff.mp h
  obtain ⟨condition, hg⟩ := connectWhere_guarded hf
  exact ⟨condition, filter, hg, (pure_ok_iff.mp he).symm⟩

theorem settled_connect {filter : Object} (hempty : G r (.object []))
    (h : P r (.connected (.object filter))) :
    w.Settled P G r (.object [("connect", .object filter)]) := by
  refine settled_operations hempty (by simp [Payload.operations]) fun part hp => ?_
  simp only [Part.ofOperations, List.flatMap_cons, List.flatMap_nil, List.append_nil, Value.asItems,
    Part.ofItem, List.mem_singleton] at hp
  subst hp
  exact ⟨h, fun _ hb => by cases hb⟩

theorem settled_disconnect (hempty : G r (.object [])) :
    w.Settled P G r (.object [("disconnect", .bool true)]) :=
  settled_operations hempty (by simp [Payload.operations])
    (by simp [Part.ofOperations, Value.asItems, Part.ofItem])

namespace Grants

variable (hg : w.Grants P G)
include hg

theorem settled (h : G r v) : w.Settled P G r v := settled_of_given (hg.plain h) h

/-- The items of a given value are settled bodies. -/
theorem settledItem {item : Object} (h : G r v) (hi : .object item ∈ v.asItems) :
    w.SettledBody P G r.target item :=
  fun _ _ _ hm hr => hg.settled (hg.inside h hi hr hm)

/-- A foreign key turned into a connection of its relation. -/
theorem setLink {e : Entity} {ops : Value} (he : w.view.schema.entity entity = .ok e)
    (hf : e.relationForField? key = some r) (hc : w.connect r v = .ok ops)
    (h : w.SettledBody P G entity body) : w.SettledBody P G entity (Object.set r.name ops body) := by
  obtain ⟨condition, filter, hgd, rfl⟩ := connect_guarded hc
  exact h.set fun r' hr' => settled_connect hg.empty (hg.linked he hf hr' hgd)

theorem setCut (h : w.SettledBody P G entity body) :
    w.SettledBody P G entity (Object.set r.name (.object [("disconnect", .bool true)]) body) :=
  h.set fun _ _ => settled_disconnect hg.empty

/-- A step keeps a body settled if the nesting turns settled values into settled ones. -/
theorem treats {kind : BodyKind} {kept : Prop} {nest : Relation → Value → Value → Prop} {e : Entity}
    {next : Object} (he : w.view.schema.entity entity = .ok e)
    (hv : v.nests = true → ∀ r, w.view.schema.relation? entity key = .ok (some r) → w.Settled P G r v)
    (hn : ∀ r ops, w.Settled P G r v → nest r v ops → w.Settled P G r ops)
    (ht : w.Treats kind kept nest e key v body next) (h : w.SettledBody P G entity body) :
    w.SettledBody P G entity next := by
  cases ht with
  | kept => exact h
  | nested hr hnests hnest =>
      have hrel := Schema.relation?_ok_iff.mpr ⟨e, he, hr⟩
      refine h.set fun r' hr' => ?_
      rw [hrel] at hr'; cases hr'
      exact hn _ _ (hv hnests _ hrel) hnest
  | erased => exact h.erase
  | linked _ hr _ hc => exact hg.setLink he hr hc h.erase
  | cut => exact hg.setCut h.erase

theorem linkForeignKeys {updating : Bool} {out : Object} (h : w.SettledBody P G entity body)
    (hl : w.linkForeignKeys entity updating body = .ok out) : w.SettledBody P G entity out := by
  obtain ⟨e, he, _⟩ := bind_ok_iff.mp hl
  obtain ⟨f, hl, hf⟩ := linkForeignKeys_treats he hl
  refine foldlM_ok_kept (fun {kv _ _} hin hi hstep => ?_) h hl
  exact hg.treats he (fun _ r hr => h kv.1 kv.2 r hin hr) (fun _ _ _ hno => hno.elim) (hf _ _ _ hstep) hi

end Grants

end Writer

end RecordGraph
