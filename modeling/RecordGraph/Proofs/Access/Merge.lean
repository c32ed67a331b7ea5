import RecordGraph.Access.Decision
import RecordGraph.Proofs.Relational.Meaning
import RecordGraph.Proofs.Value.Members
import RecordGraph.Proofs.Value.Proper

/-!
# Merged guards

A filter that was merged with a guard is satisfied only by rows that satisfy the guard, whatever
the filter says: an equal condition is the guard's own, and one that differs stands beside it.
-/

namespace RecordGraph

namespace Guard

/-! ## Cleaned filters are proper -/

theorem unwrap_proper {tree : Object} (h : (Value.object tree).Proper) : (unwrap tree).Proper := by
  unfold unwrap
  split
  · split
    · simp only [Value.Proper, Value.ProperMembers, Value.ProperItems] at h
      exact h.2.1.1
    · exact h
  · exact h

theorem cleanMembers_keys_sublist (members : Object) :
    (Object.keys (cleanMembers members)).Sublist (Object.keys members) := by
  induction members with
  | nil => simp [cleanMembers]
  | cons kv rest ih =>
      obtain ⟨k, v⟩ := kv
      by_cases hv : v = .null
      · subst hv
        simpa [cleanMembers, Object.keys] using ih
      · simp only [cleanMembers]
        split
        · simpa [Object.keys] using ih
        · exact .cons _ ih

theorem clean_list_iff {items : List Value} {w : Value} : clean (.list items) = some w ↔
    cleanItems items ≠ [] ∧ w = .list (cleanItems items) := by
  rw [clean]
  cases cleanItems items with
  | nil => simp
  | cons v vs => simp [eq_comm]

theorem clean_object_iff {members : Object} {w : Value} : clean (.object members) = some w ↔
    cleanMembers members ≠ [] ∧ w ≠ .null ∧ w = unwrap (cleanMembers members) := by
  rw [clean]
  cases hm : cleanMembers members with
  | nil => simp
  | cons kv rest =>
      dsimp only
      cases hu : unwrap (kv :: rest) with
      | null => simp
      | _ =>
          simp only [Option.some.injEq, ne_eq, reduceCtorEq, not_false_eq_true, true_and]
          constructor
          · rintro rfl; exact ⟨nofun, rfl⟩
          · rintro ⟨_, rfl⟩; rfl

mutual

theorem clean_proper : (v : Value) → v.Proper → ∀ w, clean v = some w → w.Proper
  | .list items, h, w, hw => by
      obtain ⟨_, rfl⟩ := clean_list_iff.mp hw
      exact cleanItems_proper items h
  | .object members, h, w, hw => by
      obtain ⟨_, _, rfl⟩ := clean_object_iff.mp hw
      exact unwrap_proper ⟨(cleanMembers_keys_sublist members).nodup h.1, cleanMembers_proper members h.2⟩
  | .null, _, _, hw => by simp [clean] at hw
  | .bool _, h, _, hw | .int _, h, _, hw | .float _, h, _, hw | .decimal _, h, _, hw
  | .date _, h, _, hw | .datetime _, h, _, hw | .text _, h, _, hw => by
      simp only [clean, Option.some.injEq] at hw; exact hw ▸ h

theorem cleanItems_proper : (items : List Value) → Value.ProperItems items →
    Value.ProperItems (cleanItems items)
  | [], _ => trivial
  | v :: vs, h => by
      rw [cleanItems]
      split
      · rename_i w hw
        exact ⟨clean_proper v h.1 w hw, cleanItems_proper vs h.2⟩
      · exact cleanItems_proper vs h.2

theorem cleanMembers_proper : (members : Object) → Value.ProperMembers members →
    Value.ProperMembers (cleanMembers members)
  | [], _ => trivial
  | (k, v) :: rest, h => by
      by_cases hv : v = .null
      · subst hv
        exact ⟨trivial, cleanMembers_proper rest h.2⟩
      · simp only [cleanMembers]
        split
        · rename_i w hw
          exact ⟨clean_proper v h.1 w hw, cleanMembers_proper rest h.2⟩
        · exact cleanMembers_proper rest h.2

end

/-! ## So are filters without the conditions on a parent -/

variable {parent : String}

theorem withoutParentMembers_keys_sublist (members : Object) :
    (Object.keys (withoutParentMembers parent members)).Sublist (Object.keys members) := by
  induction members with
  | nil => simp [withoutParentMembers]
  | cons kv rest ih =>
      rw [withoutParentMembers]
      split
      · exact .cons _ ih
      · split
        · split
          · exact .cons_cons _ ih
          · exact .cons _ ih
        · exact .cons_cons _ ih

mutual

theorem withoutParent_proper : (v : Value) → v.Proper → ∀ w, withoutParent parent v = some w → w.Proper
  | .list items, h, w, hw => by
      rw [withoutParent] at hw
      split at hw
      · cases hw
      · exact Option.some.inj hw ▸ withoutParentItems_proper items h
  | .object members, h, w, hw => by
      rw [withoutParent] at hw
      split at hw
      · cases hw
      · exact Option.some.inj hw ▸ unwrap_proper
          ⟨(withoutParentMembers_keys_sublist members).nodup h.1, withoutParentMembers_proper members h.2⟩
  | .null, _, _, hw => by simp [withoutParent] at hw
  | .bool _, h, _, hw | .int _, h, _, hw | .float _, h, _, hw | .decimal _, h, _, hw
  | .date _, h, _, hw | .datetime _, h, _, hw | .text _, h, _, hw => by
      simp only [withoutParent, Option.some.injEq] at hw; exact hw ▸ h

theorem withoutParentItems_proper : (items : List Value) → Value.ProperItems items →
    Value.ProperItems (withoutParentItems parent items)
  | [], _ => trivial
  | v :: vs, h => by
      rw [withoutParentItems]
      split
      · rename_i w hw
        exact ⟨withoutParent_proper v h.1 w hw, withoutParentItems_proper vs h.2⟩
      · exact withoutParentItems_proper vs h.2

theorem withoutParentMembers_proper : (members : Object) → Value.ProperMembers members →
    Value.ProperMembers (withoutParentMembers parent members)
  | [], _ => trivial
  | (k, v) :: rest, h => by
      rw [withoutParentMembers]
      split
      · exact withoutParentMembers_proper rest h.2
      · split
        · split
          · rename_i kept hkept
            exact ⟨withoutParent_proper v h.1 _ hkept, withoutParentMembers_proper rest h.2⟩
          · exact withoutParentMembers_proper rest h.2
        · exact ⟨h.1, withoutParentMembers_proper rest h.2⟩

end

end Guard

/-! ## Decisions -/

/-- No answer of the rules has two members of one key. -/
def Rules.Proper (rs : Rules) : Prop :=
  ∀ entity r action ask p answer, rs.get? entity = some r → Action.ask action r = some ask →
    ask p = .ok answer → answer.Proper

theorem Rules.nil_proper : Rules.Proper ⟨[]⟩ := by
  intro _ _ _ _ _ _ hr
  cases hr

/-- Rules of which the only one answers which rows of an entity can be read. -/
def Rules.reading (entity : String) (answer : Value) : Rules :=
  ⟨[(entity, { readable := some fun _ => .ok answer })]⟩

theorem Rules.reading_proper {entity : String} {answer : Value} (h : answer.Proper) :
    (reading entity answer).Proper := by
  intro entity' r action ask p given hr ha hp
  by_cases he : entity' = entity
  · subst he
    obtain rfl := Option.some.inj (List.lookup_cons_self.symm.trans hr)
    cases action with
    | read => cases ha; cases hp; exact h
    | update | delete => cases ha
  · have hnone : (reading entity answer).get? entity' = none :=
      List.lookup_eq_none_iff.mpr fun kv hkv => by rw [List.mem_singleton.mp hkv]; exact bne_iff_ne.mpr he
    cases hnone.symm.trans hr

theorem Decision.ofAnswer_proper {answer : Value} (h : answer.Proper) :
    (Value.object (ofAnswer answer).filter).Proper := by
  have hempty : (Value.object []).Proper := by simp [Value.Proper, Value.ProperMembers, Object.keys]
  unfold ofAnswer
  split
  · exact hempty
  · split
    · rename_i hc
      exact Guard.clean_proper _ h _ hc
    · exact hempty
  · exact hempty

theorem Rules.decide_proper {rs : Rules} (h : rs.Proper) {action : Action} {entity : String}
    {user : User} {d : Decision} (hd : rs.decide action entity user = .ok d) :
    (Value.object d.filter).Proper := by
  have hallow : (Value.object Decision.allow.filter).Proper := by
    simp [Decision.filter, Value.Proper, Value.ProperMembers, Object.keys]
  cases user with
  | system => exact pure_ok_iff.mp hd ▸ hallow
  | principal p =>
      simp only [decide] at hd
      split at hd
      · exact pure_ok_iff.mp hd ▸ hallow
      · rename_i ask ha
        obtain ⟨answer, hp, rfl⟩ := map_ok_iff.mp hd
        obtain ⟨r, hr, hask⟩ := Option.bind_eq_some_iff.mp ha
        exact Decision.ofAnswer_proper (h _ _ _ _ _ _ hr hask hp)

/-- The filter of an action that is not refused is that of the decision on it. -/
theorem Rules.filterFor_ok_iff {rs : Rules} {action : Action} {entity : String} {user : User}
    {f : Object} : rs.filterFor action entity user = .ok f ↔
      ∃ d, rs.decide action entity user = .ok d ∧ d.denied = false ∧ d.filter = f := by
  rw [filterFor, bind_ok_iff]
  refine exists_congr fun d => and_congr_right fun _ => ?_
  cases d <;> simp [Decision.denied, throw_ok_iff, pure_ok_iff]

theorem Rules.filterFor_nodup {rs : Rules} (h : rs.Proper) {action : Action} {entity : String} {user : User}
    {f : Object} (hf : rs.filterFor action entity user = .ok f) : f.keys.Nodup := by
  obtain ⟨d, hd, _, rfl⟩ := filterFor_ok_iff.mp hf
  exact (decide_proper h hd).1

/-! ## What a merged filter confines -/

namespace Guard

variable {c : Catalog} {m : Model} {db : Database} {row : Row} {filter guard : Object}

/-- A condition of the guard stands in the merged filter, under its key or under `AND`. -/
theorem mem_merge (hn : guard.keys.Nodup) {kv : String × Value} (h : kv ∈ guard) :
    kv ∈ merge filter guard ∨ ∃ v, ("AND", v) ∈ merge filter guard ∧
      (.object [kv] ∈ v.asItems ∨ kv.1 = "AND" ∧ ∀ item ∈ kv.2.asItems, item ∈ v.asItems) := by
  have hkeys : (Object.keys (guard.filter fun kv => !clashes filter kv)).Nodup :=
    (List.filter_sublist.map _).nodup hn
  unfold merge
  by_cases hc : clashes filter kv
  · have hmem : kv ∈ guard.filter (clashes filter) := List.mem_filter.mpr ⟨h, hc⟩
    have hne : (guard.filter (clashes filter)).isEmpty = false := by
      cases hg : guard.filter (clashes filter) with
      | nil => simp [hg] at hmem
      | cons => rfl
    right
    simp only [hne, Bool.false_eq_true, ↓reduceIte]
    exact ⟨_, Object.mem_set_self, .inl (List.mem_append_right _ (List.mem_map.mpr ⟨kv, hmem, rfl⟩))⟩
  · have hmem : kv ∈ guard.filter fun kv => !clashes filter kv :=
      List.mem_filter.mpr ⟨h, by simp [hc]⟩
    have hup := Object.mem_update (o := filter) hkeys hmem
    by_cases he : (guard.filter (clashes filter)).isEmpty
    · left; simpa [he] using hup
    · simp only [he, Bool.false_eq_true, ↓reduceIte]
      by_cases hk : kv.1 = "AND"
      · have hget : Object.get (Object.update filter (guard.filter fun kv => !clashes filter kv)) "AND"
            = kv.2 := by
          have hs := Object.get?_update_of_mem (o := filter) hkeys hmem
          rw [← hk, Object.get, hs]; rfl
        right
        refine ⟨_, Object.mem_set_self, .inr ⟨hk, fun item hi => ?_⟩⟩
        exact List.mem_append_left _ (by rw [hget]; exact hi)
      · exact .inl (Object.mem_set_of_ne hup hk)

/-- A reading of filters by which the members of an object, and the items under `AND`, hold each on its own. -/
structure Conjunctive (P : Value → Prop) (Q : String × Value → Prop) : Prop where
  object : ∀ {o : Object}, P (.object o) ↔ ∀ kv ∈ o, Q kv
  and : ∀ {v : Value}, Q ("AND", v) ↔ ∀ item ∈ v.asItems, P item

theorem Conjunctive.confines {P : Value → Prop} {Q : String × Value → Prop} (hr : Conjunctive P Q)
    (hn : guard.keys.Nodup) (h : P (.object (merge filter guard))) : P (.object guard) := by
  rw [hr.object] at h ⊢
  intro kv hkv
  rcases mem_merge hn hkv with hmem | ⟨v, hv, hin⟩
  · exact h kv hmem
  · have hitems := hr.and.mp (h _ hv)
    rcases hin with hin | ⟨hk, hin⟩
    · exact hr.object.mp (hitems _ hin) kv (by simp)
    · obtain ⟨k, u⟩ := kv
      cases hk
      exact hr.and.mpr fun item hi => hitems item (hin item hi)

theorem conjunctive_satisfies : Conjunctive (c.Satisfies m db row) (c.SatisfiesMember m db row) :=
  ⟨Catalog.satisfies_object_iff, Catalog.satisfiesMember_and_iff⟩

theorem merge_confines (hn : guard.keys.Nodup)
    (h : c.Satisfies m db row (.object (merge filter guard))) : c.Satisfies m db row (.object guard) :=
  conjunctive_satisfies.confines hn h

end Guard

/-- The rows that satisfy a condition are open to an action of a user. -/
def Rules.Confined (rs : Rules) (action : Action) (entity : String) (user : User) (condition : Value) :
    Prop :=
  ∃ d, rs.decide action entity user = .ok d ∧ d.denied = false ∧
    ∀ (c : Catalog) (m : Model) (db : Database) (row : Row),
      c.Satisfies m db row condition → c.Satisfies m db row (.object d.filter)

theorem Rules.merge_confined {rs : Rules} (h : rs.Proper) {action : Action} {entity : String}
    {user : User} {condition guard : Object} (hf : rs.filterFor action entity user = .ok guard) :
    rs.Confined action entity user (.object (Guard.merge condition guard)) := by
  obtain ⟨d, hd, hden, rfl⟩ := filterFor_ok_iff.mp hf
  have hn := (decide_proper h hd).1
  exact ⟨d, hd, hden, fun c m db row hs => Guard.merge_confines hn hs⟩

theorem Rules.Confined.not_denied {rs : Rules} {action : Action} {entity : String} {user : User}
    {condition : Value} (h : rs.Confined action entity user condition) {d : Decision}
    (hd : rs.decide action entity user = .ok d) : d.denied = false := by
  obtain ⟨d', hd', hden, _⟩ := h
  rw [hd] at hd'
  cases hd'
  exact hden

end RecordGraph
