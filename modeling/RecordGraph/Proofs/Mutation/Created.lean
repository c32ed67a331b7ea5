import RecordGraph.Mutation.Create
import RecordGraph.Proofs.Mutation.Settled

/-!
# Created records are settled

Every step of a creation keeps bodies settled, whatever nesting it is given, as long as the nesting
does; the nesting of any number of levels does, by induction on them.
-/

namespace RecordGraph

namespace Part

theorem ofOperations_append {ops more : Object} :
    ofOperations (ops ++ more) = ofOperations ops ++ ofOperations more := by
  simp [ofOperations]

/-- The parts of a member for the items of one operation. -/
theorem mem_ofOperations_member {op : String} {items : List Value} {part : Part} :
    part ∈ ofOperations (Writer.Placement.member op items) ↔ ∃ item ∈ items, part ∈ ofItem op item := by
  cases items with
  | nil => simp [Writer.Placement.member, ofOperations]
  | cons item items =>
      simp [Writer.Placement.member, ofOperations, Value.asItems, List.mem_flatMap]

theorem ofItem_connectOrCreate {filter body : Value} :
    ofItem "connectOrCreate" (.object [("where", filter), ("create", body)]) =
      [connected filter, created body] := rfl

end Part

namespace Writer

theorem Placement.mem_member {op : String} {items : List Value} {kv : String × Value}
    (h : kv ∈ Placement.member op items) : kv.1 = op := by
  unfold Placement.member at h
  split at h
  · simp at h
  · rw [List.mem_singleton.mp h]

variable {w : Writer} {P : Relation → Part → Prop} {G : Relation → Value → Prop} {nesting : Nesting}
  {entity path : String} {r : Relation} {v : Value} {body out : Object}

/-- A nesting that turns settled values into settled values. -/
def Nesting.Keeps (w : Writer) (P : Relation → Part → Prop) (G : Relation → Value → Prop)
    (nesting : Nesting) : Prop :=
  ∀ r v path out, w.Settled P G r v → nesting r v path = .ok out → w.Settled P G r out

/-- A checked item is an object, as it was. -/
theorem checkedItem_ok {item : Value} (h : w.checkedItem entity path item = .ok out) :
    item = .object out := by
  unfold checkedItem at h
  split at h
  · obtain ⟨_, _, h⟩ := bind_ok_iff.mp h
    obtain ⟨_, _, h⟩ := bind_ok_iff.mp h
    rw [pure_ok_iff.mp h]
  · simp [throw_ok_iff] at h

theorem ensureCanCreate_ok {payload : Value} (h : w.view.ensureCanCreate entity payload = .ok ()) :
    w.view.canCreate entity payload = .ok true := by
  obtain ⟨can, hc, h⟩ := bind_ok_iff.mp h
  cases can with
  | true => exact hc
  | false => simp [throw_ok_iff] at h

section
variable (hg : w.Grants P G) (hn : nesting.Keeps w P G)
include hg hn

theorem createItem_settled (h : w.SettledBody P G entity body)
    (hc : w.createItem nesting entity path body = .ok out) : w.SettledBody P G entity out := by
  obtain ⟨e, he, hf⟩ := bind_ok_iff.mp hc
  refine foldlM_ok_kept (fun _ hi hm => ?_) h hf
  exact hg.treats he hi.get (fun r ops hv => hn r _ _ ops hv) (createMember_treats hm) hi

end

/-! ## Items of list relations -/

/-- What is known of the place of an item. -/
def Placement.Settled (w : Writer) (P : Relation → Part → Prop) (G : Relation → Value → Prop)
    (r : Relation) : Placement → Prop
  | .create body => P r (.created (.object body)) ∧ w.SettledBody P G r.target body
  | .connect filter => P r (.connected (.object filter))
  | .connectOrCreate filter body => P r (.connected (.object filter)) ∧
      P r (.created (.object body)) ∧ w.SettledBody P G r.target body

theorem Placement.operations_settled {ps : List Placement} (hempty : G r (.object []))
    (h : ∀ p ∈ ps, p.Settled w P G r) : w.Settled P G r (.object (operations ps)) := by
  refine settled_operations hempty (fun kv hm => ?_) fun part hp => ?_
  · simp only [operations, List.mem_append] at hm
    rcases hm with (hm | hm) | hm <;> simp [mem_member hm, Payload.operations]
  · simp only [operations, Part.ofOperations_append, List.mem_append, Part.mem_ofOperations_member,
      List.mem_filterMap] at hp
    rcases hp with (⟨item, ⟨p, hp, hi⟩, hpart⟩ | ⟨item, ⟨p, hp, hi⟩, hpart⟩) | ⟨item, ⟨p, hp, hi⟩, hpart⟩
    · cases p with
      | create body =>
          cases hi
          cases List.mem_singleton.mp hpart
          exact ⟨(h _ hp).1, fun _ hb => by cases hb; exact (h _ hp).2⟩
      | connect | connectOrCreate => cases hi
    · cases p with
      | connect filter =>
          cases hi
          cases List.mem_singleton.mp hpart
          exact ⟨h _ hp, fun _ hb => by cases hb⟩
      | create | connectOrCreate => cases hi
    · cases p with
      | connectOrCreate filter body =>
          cases hi
          rw [Part.ofItem_connectOrCreate, List.mem_pair] at hpart
          rcases hpart with rfl | rfl
          · exact ⟨(h _ hp).1, fun _ hb => by cases hb⟩
          · exact ⟨(h _ hp).2.1, fun _ hb => by cases hb; exact (h _ hp).2.2⟩
      | create | connect => cases hi

section
variable (hg : w.Grants P G) (hn : nesting.Keeps w P G)
include hg hn

theorem placeItem_settled {keys dropped : List String} {joined : Bool} {item : Value} {p : Placement}
    (hi : ∀ members, item = .object members → w.SettledBody P G r.target members)
    (h : w.placeItem nesting r path keys joined dropped item = .ok p) : p.Settled w P G r := by
  obtain ⟨members, hm, h⟩ := bind_ok_iff.mp h
  have hbody : w.SettledBody P G r.target (members.without dropped) :=
    (hi members (checkedItem_ok hm)).without
  have hdeclared : w.Declares r.target (members.without dropped) := (checkedItem_declares hm).without
  dsimp only at h
  split at h
  · obtain ⟨_, hcan, h⟩ := bind_ok_iff.mp h
    obtain ⟨body, hb, h⟩ := bind_ok_iff.mp h
    rw [← pure_ok_iff.mp h]
    exact ⟨hg.created (ensureCanCreate_ok hcan) (createItem_closed hdeclared hb),
      createItem_settled hg hn hbody hb⟩
  · split at h
    · obtain ⟨condition, _, h⟩ := bind_ok_iff.mp h
      obtain ⟨filter, hf, h⟩ := bind_ok_iff.mp h
      rw [← pure_ok_iff.mp h]
      exact hg.connected hf
    · obtain ⟨_, hcan, h⟩ := bind_ok_iff.mp h
      obtain ⟨condition, _, h⟩ := bind_ok_iff.mp h
      obtain ⟨filter, hf, h⟩ := bind_ok_iff.mp h
      obtain ⟨body, hb, h⟩ := bind_ok_iff.mp h
      rw [← pure_ok_iff.mp h]
      exact ⟨hg.connected hf, hg.created (ensureCanCreate_ok hcan) (createItem_closed hdeclared hb),
        createItem_settled hg hn hbody hb⟩

theorem createMany_settled {items : List Value} {ops : Value} (hv : G r (.list items))
    (h : w.createMany nesting r items path = .ok ops) : w.Settled P G r ops := by
  obtain ⟨keys, _, h⟩ := bind_ok_iff.mp h
  obtain ⟨joinKey, _, h⟩ := bind_ok_iff.mp h
  obtain ⟨omitted, _, h⟩ := bind_ok_iff.mp h
  obtain ⟨placements, hp, h⟩ := bind_ok_iff.mp h
  rw [← pure_ok_iff.mp h]
  refine Placement.operations_settled hg.empty fun p hm => ?_
  obtain ⟨item, hi, hplace⟩ := mem_of_mapM_ok hp hm
  exact placeItem_settled hg hn (fun members he => hg.settledItem hv (he ▸ hi)) hplace

/-- Operations that were given are returned as they are; they are settled already. -/
theorem createOne_settled {ops : Value} (hv : w.Settled P G r v)
    (h : w.createOne nesting r v path = .ok ops) : w.Settled P G r ops := by
  unfold createOne at h
  split at h
  · exact pure_ok_iff.mp h ▸ hv
  · rename_i hop
    obtain ⟨_, hcan, h⟩ := bind_ok_iff.mp h
    obtain ⟨omitted, _, h⟩ := bind_ok_iff.mp h
    cases v with
    | object members =>
        obtain ⟨checked, hc, h⟩ := bind_ok_iff.mp h
        cases checkedItem_ok hc
        rename_i h
        obtain ⟨body, hb, h⟩ := bind_ok_iff.mp h
        have hitem : w.SettledBody P G r.target members :=
          hg.settledItem (hv.2 (by simpa using hop)) (by simp [Value.asItems])
        rw [← pure_ok_iff.mp h]
        refine settled_operations hg.empty (by simp [Payload.operations]) fun part hp => ?_
        have he : part = .created (.object body) := by
          simpa [Part.ofOperations, Value.asItems, Part.ofItem] using hp
        subst he
        have hclosed := createItem_closed (checkedItem_declares hc) hb
        refine ⟨hg.created (ensureCanCreate_ok hcan) hclosed, fun inner hi => ?_⟩
        cases hi
        exact createItem_settled hg hn hitem.without hb
    | _ => simp [throw_ok_iff] at h

end

variable (hg : w.Grants P G)
include hg

theorem createNested_keeps (levels : Nat) : Nesting.Keeps w P G (w.createNested levels) := by
  induction levels with
  | zero =>
      intro r v path out _ h
      simp [createNested, throw_ok_iff] at h
  | succ levels ih =>
      intro r v path out hv h
      rw [createNested] at h
      dsimp only at h
      split at h
      · exact createMany_settled hg ih (hv.2 rfl) h
      · exact createOne_settled hg ih hv h

/-! ## Records -/

theorem create_settled {payload : Object} (hp : w.SettledBody P G entity payload)
    (h : w.create entity payload = .ok out) : w.SettledBody P G entity out := by
  obtain ⟨stripped, hst, h⟩ := bind_ok_iff.mp h
  obtain ⟨e, he, h⟩ := bind_ok_iff.mp h
  obtain ⟨omitted, _, hst⟩ := bind_ok_iff.mp hst
  have hstart : w.SettledBody P G entity stripped := pure_ok_iff.mp hst ▸ hp.without
  refine foldlM_ok_kept (fun _ hi hm => ?_) hstart h
  exact hg.treats he hi.get (fun r ops hv => createNested_keeps hg _ r _ _ ops hv) (createTopMember_treats hm).2 hi

end Writer

end RecordGraph
