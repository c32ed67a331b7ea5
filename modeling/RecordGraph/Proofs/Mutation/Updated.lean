import RecordGraph.Mutation.Update
import RecordGraph.Proofs.Mutation.Created

/-!
# Updated records are settled

The same for updates: nested records keep their bodies settled, and the conditions of the rows of a
list that are updated are merged with the guard of updates.
-/

namespace RecordGraph

namespace Part

theorem ofItem_upsert {condition body changes : Value} :
    ofItem "upsert" (.object [("where", condition), ("create", body), ("update", changes)]) =
      [updated condition, created body, changed changes] := rfl

theorem ofItem_update {condition changes : Value} :
    ofItem "update" (.object [("where", condition), ("data", changes)]) =
      [updated condition, changed changes] := rfl

/-- The parts of the one entry of a record: it has no condition. -/
theorem mem_ofItem_upsert {creating changing : Bool} {body changes : Value} {part : Part}
    (h : part ∈ ofItem "upsert" (.object ((if creating then [("create", body)] else [])
      ++ (if changing then [("update", changes)] else [])))) :
    part = created body ∨ changing = true ∧ part = changed changes := by
  cases creating <;> cases changing <;> simp [ofItem, members, Object.get?] at h <;> simp [h]

end Part

namespace Writer

variable {w : Writer} {P : Relation → Part → Prop} {G : Relation → Value → Prop} {nesting : UpdateNesting}
  {entity : String} {r : Relation} {v : Value} {body out : Object}

def UpdateNesting.Keeps (w : Writer) (P : Relation → Part → Prop) (G : Relation → Value → Prop)
    (nesting : UpdateNesting) : Prop :=
  ∀ r v out, w.Settled P G r v → nesting r v = .ok (some out) → w.Settled P G r out

/-- What is known of the parts of an entry of a list relation. -/
def PartsSettled (w : Writer) (P : Relation → Part → Prop) (G : Relation → Value → Prop) (r : Relation)
    (op : String) (entry : Value) : Prop :=
  ∀ part ∈ Part.ofItem op entry, P r part ∧
    ∀ inner, part.body? = some (.object inner) → w.SettledBody P G r.target inner

/-- Nothing comes of an empty record. -/
theorem updateItem_nil (h : w.updateItem nesting entity [] = .ok out) : out = [] := by
  obtain ⟨e, _, h⟩ := bind_ok_iff.mp h
  exact (pure_ok_iff.mp h).symm

theorem linkForeignKeys_nil {updating : Bool} (h : w.linkForeignKeys entity updating [] = .ok out) :
    out = [] := by
  obtain ⟨e, _, h⟩ := bind_ok_iff.mp h
  exact (pure_ok_iff.mp h).symm

/-! ## Items of list relations -/

/-- The operations of the items that are connected, updated and created. -/
theorem members_settled (hempty : G r (.object [])) {canCreate : Bool} {connects upserts creates : List Value}
    (hc : ∀ item ∈ connects, w.PartsSettled P G r "connect" item)
    (hu : ∀ item ∈ upserts, w.PartsSettled P G r (if canCreate then "upsert" else "update") item)
    (hm : ∀ item ∈ creates, w.PartsSettled P G r "create" item) :
    w.Settled P G r (.object (Placement.member "connect" connects
      ++ Placement.member (if canCreate then "upsert" else "update") upserts
      ++ Placement.member "create" creates)) := by
  refine settled_operations hempty (fun kv hkv => ?_) fun part hp => ?_
  · simp only [List.mem_append] at hkv
    rcases hkv with (hkv | hkv) | hkv
    · simp [Placement.mem_member hkv, Payload.operations]
    · rw [Placement.mem_member hkv]
      cases canCreate <;> simp [Payload.operations]
    · simp [Placement.mem_member hkv, Payload.operations]
  · simp only [Part.ofOperations_append, List.mem_append, Part.mem_ofOperations_member] at hp
    rcases hp with (⟨item, hi, hpart⟩ | ⟨item, hi, hpart⟩) | ⟨item, hi, hpart⟩
    · exact hc item hi part hpart
    · exact hu item hi part hpart
    · exact hm item hi part hpart

section
variable (hg : w.Grants P G)
include hg

theorem updateItem_settled (hn : nesting.Keeps w P G) (h : w.SettledBody P G entity body)
    (hu : w.updateItem nesting entity body = .ok out) : w.SettledBody P G entity out := by
  obtain ⟨e, he, _⟩ := bind_ok_iff.mp hu
  obtain ⟨f, hu, hf⟩ := updateItem_treats he hu
  refine foldlM_ok_kept (fun {kv _ _} hin hi hm => ?_) h hu
  exact hg.treats he (fun _ r hr => h kv.1 kv.2 r hin hr) (fun r ops hv => hn r _ ops hv) (hf _ _ _ hm) hi

/-- The entry of an item that is updated, or created where it is missing by a writer who may. -/
theorem upsertEntry_settled {keys dropped : List String} {joinKey : Option (List String)} {parent : Value}
    {canCreate : Bool} {guard item : Object} {entry : Value}
    (hguard : w.updateGuard r.target = .ok guard)
    (hc : canCreate = true → w.view.canCreate r.target .null = .ok true)
    (hi : w.SettledBody P G r.target item) (hd : w.Declares r.target item)
    (h : w.upsertEntry r keys joinKey parent dropped canCreate guard item = .ok entry) :
    w.PartsSettled P G r (if canCreate then "upsert" else "update") entry := by
  obtain ⟨condition, _, h⟩ := bind_ok_iff.mp h
  obtain ⟨changes, hch, h⟩ := bind_ok_iff.mp h
  have hchanges := hg.linkForeignKeys hi.without.without hch
  have hchanged := hg.changed hguard (linkForeignKeys_closed hd.without.without hch)
  cases canCreate with
  | true =>
      obtain ⟨whole, hw, h⟩ := bind_ok_iff.mp h
      have hwhole := hg.linkForeignKeys hi.without hw
      rw [← pure_ok_iff.mp h]
      intro part hp
      rw [if_pos rfl, Part.ofItem_upsert] at hp
      simp only [List.mem_cons, List.not_mem_nil, or_false] at hp
      rcases hp with rfl | rfl | rfl
      · exact ⟨hg.updated hguard, fun _ hb => by cases hb⟩
      · exact ⟨hg.created (hc rfl) (linkForeignKeys_closed hd.without hw),
          fun _ hb => by cases hb; exact hwhole⟩
      · exact ⟨hchanged, fun _ hb => by cases hb; exact hchanges⟩
  | false =>
      rw [← pure_ok_iff.mp h]
      intro part hp
      rw [if_neg Bool.false_ne_true, Part.ofItem_update, List.mem_pair] at hp
      rcases hp with rfl | rfl
      · exact ⟨hg.updated hguard, fun _ hb => by cases hb⟩
      · exact ⟨hchanged, fun _ hb => by cases hb; exact hchanges⟩

theorem upsertEntries_settled {keys dropped : List String} {joinKey : Option (List String)} {parent : Value}
    {canCreate : Bool} {items : List Object} {entries : List Value}
    (hc : canCreate = true → w.view.canCreate r.target .null = .ok true)
    (hi : ∀ item ∈ items, w.SettledBody P G r.target item ∧ w.Declares r.target item)
    (h : w.upsertEntries r keys joinKey parent dropped canCreate items = .ok entries) :
    ∀ entry ∈ entries, w.PartsSettled P G r (if canCreate then "upsert" else "update") entry := by
  intro entry he
  unfold upsertEntries at h
  split at h
  · rw [← pure_ok_iff.mp h] at he
    simp at he
  · obtain ⟨guard, hguard, h⟩ := bind_ok_iff.mp h
    obtain ⟨item, hitem, h⟩ := mem_of_mapM_ok h he
    exact upsertEntry_settled hg hguard hc (hi item hitem).1 (hi item hitem).2 h

theorem createBodies_settled {dropped : List String} {canCreate : Bool} {items : List Object}
    {bodies : List Value} (hc : canCreate = true → w.view.canCreate r.target .null = .ok true)
    (hi : ∀ item ∈ items, w.SettledBody P G r.target item ∧ w.Declares r.target item)
    (h : w.createBodies r dropped canCreate items = .ok bodies) :
    ∀ entry ∈ bodies, w.PartsSettled P G r "create" entry := by
  intro entry he part hp
  unfold createBodies at h
  split at h
  · rename_i htrue
    obtain ⟨item, hitem, h⟩ := mem_of_mapM_ok h he
    obtain ⟨whole, hw, h⟩ := bind_ok_iff.mp h
    obtain ⟨hsettled, hdeclared⟩ := hi item hitem
    obtain rfl := pure_ok_iff.mp h
    cases List.mem_singleton.mp hp
    refine ⟨hg.created (hc htrue) (linkForeignKeys_closed hdeclared.without hw), fun inner hb => ?_⟩
    cases hb
    exact hg.linkForeignKeys hsettled.without hw
  · rw [← pure_ok_iff.mp h] at he
    simp at he

theorem updateMany_settled (hn : nesting.Keeps w P G) {items : List Value} {parent ops : Value}
    (hv : G r (.list items)) (h : w.updateMany nesting r items parent = .ok ops) :
    w.Settled P G r ops := by
  obtain ⟨keys, _, h⟩ := bind_ok_iff.mp h
  obtain ⟨joinKey, _, h⟩ := bind_ok_iff.mp h
  obtain ⟨omitted, _, h⟩ := bind_ok_iff.mp h
  obtain ⟨prepared, hprep, h⟩ := bind_ok_iff.mp h
  have hsettled : ∀ kind, ∀ item ∈ prepared.filter fun item => itemKind keys joinKey item == kind,
      w.SettledBody P G r.target item ∧ w.Declares r.target item := by
    intro kind item hi
    obtain ⟨given, hgiven, hitem⟩ := mem_of_mapM_ok hprep (List.mem_filter.mp hi).1
    obtain ⟨members, hm, hitem⟩ := bind_ok_iff.mp hitem
    exact ⟨updateItem_settled hg hn (hg.settledItem hv (checkedItem_ok hm ▸ hgiven)) hitem,
      updateItem_declares (checkedItem_declares hm) hitem⟩
  obtain ⟨_, _, h⟩ := bind_ok_iff.mp h
  obtain ⟨canCreate, hcan, h⟩ := bind_ok_iff.mp h
  obtain ⟨connects, hconn, h⟩ := bind_ok_iff.mp h
  have hc : ∀ item ∈ connects, w.PartsSettled P G r "connect" item := by
    intro item hi part hp
    obtain ⟨given, _, hitem⟩ := mem_of_mapM_ok hconn hi
    obtain ⟨condition, _, hitem⟩ := bind_ok_iff.mp hitem
    obtain ⟨filter, hf, hitem⟩ := bind_ok_iff.mp hitem
    cases List.mem_singleton.mp hp
    exact ⟨pure_ok_iff.mp hitem ▸ hg.connected hf, fun _ hb => by cases hb⟩
  obtain ⟨upserts, hup, h⟩ := bind_ok_iff.mp h
  obtain ⟨creates, hcr, h⟩ := bind_ok_iff.mp h
  rw [← pure_ok_iff.mp h]
  exact members_settled hg.empty hc
    (upsertEntries_settled hg (fun ht => ht ▸ hcan) (hsettled .upsert) hup)
    (createBodies_settled hg (fun ht => ht ▸ hcan) (hsettled .create) hcr)

/-- The operation for the record of a relation. -/
theorem updateOne_settled (hn : nesting.Keeps w P G) {ops : Value} (hv : w.Settled P G r v)
    (h : w.updateOne nesting r v = .ok (some ops)) : w.Settled P G r ops := by
  unfold updateOne at h
  split at h
  · cases pure_ok_iff.mp h
    exact hv
  · rename_i hop
    obtain ⟨_, hcan, h⟩ := bind_ok_iff.mp h
    obtain ⟨omitted, _, h⟩ := bind_ok_iff.mp h
    cases v with
    | object members =>
        obtain ⟨checked, hc, h⟩ := bind_ok_iff.mp h
        cases checkedItem_ok hc
        rename_i h
        obtain ⟨processed, hp, h⟩ := bind_ok_iff.mp h
        obtain ⟨whole, hw, h⟩ := bind_ok_iff.mp h
        obtain ⟨keys, _, h⟩ := bind_ok_iff.mp h
        obtain ⟨changes, hch, h⟩ := bind_ok_iff.mp h
        have hgiven : G r (.object members) := hv.2 (by simpa using hop)
        have hitem : w.SettledBody P G r.target members := hg.settledItem hgiven (by simp [Value.asItems])
        have hproc := updateItem_settled hg hn hitem.without hp
        have hdeclared := updateItem_declares (checkedItem_declares hc) hp
        have hwhole := hg.linkForeignKeys hproc hw
        have hchanges := hg.linkForeignKeys hproc.without hch
        rw [pure_ok_iff, Option.ite_none_left_eq_some, Option.some.injEq] at h
        obtain ⟨_, rfl⟩ := h
        refine settled_operations hg.empty (by simp [Payload.operations]) fun part hpart => ?_
        simp only [Part.ofOperations, Value.asItems, List.flatMap_cons, List.flatMap_nil,
          List.append_nil] at hpart
        rcases Part.mem_ofItem_upsert hpart with rfl | ⟨hmeans, rfl⟩
        · exact ⟨hg.created (ensureCanCreate_ok hcan) (linkForeignKeys_closed hdeclared hw),
            fun _ hb => by cases hb; exact hwhole⟩
        · have hne : members ≠ [] := by
            rintro rfl
            rw [updateItem_nil hp] at hch
            rw [linkForeignKeys_nil hch] at hmeans
            cases hmeans
          have hclosed := linkForeignKeys_closed hdeclared.without hch
          exact ⟨hg.changedOne hgiven hne (ensureCanCreate_ok hcan) hclosed,
            fun _ hb => by cases hb; exact hchanges⟩
    | _ => simp [throw_ok_iff] at h

theorem updateNested_keeps (levels : Nat) (parent : Value) :
    UpdateNesting.Keeps w P G (w.updateNested levels parent) := by
  induction levels generalizing parent with
  | zero =>
      intro r v out _ h
      simp [updateNested, throw_ok_iff] at h
  | succ levels ih =>
      intro r v out hv h
      rw [updateNested] at h
      dsimp only at h
      split at h
      · obtain ⟨ops, h, he⟩ := map_ok_iff.mp h
        cases he
        exact updateMany_settled hg (ih .null) (hv.2 rfl) h
      · exact updateOne_settled hg (ih .null) hv h

/-! ## Records -/

theorem update_settled {id : Value} {payload : Object} (hp : w.SettledBody P G entity payload)
    (h : w.update entity id payload = .ok out) : w.SettledBody P G entity out := by
  obtain ⟨stripped, hst, h⟩ := bind_ok_iff.mp h
  obtain ⟨keys, _, h⟩ := bind_ok_iff.mp h
  obtain ⟨e, he, h⟩ := bind_ok_iff.mp h
  obtain ⟨omitted, _, hst⟩ := bind_ok_iff.mp hst
  have hstart : w.SettledBody P G entity stripped := pure_ok_iff.mp hst ▸ hp.without
  refine foldlM_ok_kept (fun _ hi hm => ?_) hstart.without h
  exact hg.treats he hi.get (fun r ops hv => updateNested_keeps hg _ _ r _ ops hv) (updateTopMember_treats hm).2 hi

end

end Writer

end RecordGraph
