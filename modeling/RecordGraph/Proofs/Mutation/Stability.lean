import RecordGraph.Proofs.Mutation.Acceptance
import RecordGraph.Proofs.Mutation.Closure

/-!
# Stable payloads

What comes of a payload is taken as it is when it is sent again: every member that a step leaves behind is one that
no step touches. Three things stand in the way. A key that goes by the name of a relation is dropped from changes
with the operations on that relation, a foreign key that goes by the name of a relation is connected once more, and a
writer who may nest no relation at all can link by foreign keys, but not send such links.
-/

namespace RecordGraph

namespace Writer

variable {w : Writer} {e : Entity} {entity key path : String} {r : Relation} {v : Value} {kv : String × Value}
  {body out : Object} {dropped : List String}

/-! ## Updated relations are turned -/

theorem updateOne_turned {nesting : UpdateNesting} {ops : Value} (h : w.updateOne nesting r v = .ok (some ops)) :
    Payload.isOperation ops = true := by
  unfold updateOne at h
  split at h
  next hop =>
    obtain rfl := Option.some.inj (pure_ok_iff.mp h)
    exact hop
  next =>
    obtain ⟨_, _, h⟩ := bind_ok_iff.mp h
    obtain ⟨omitted, _, h⟩ := bind_ok_iff.mp h
    split at h
    · obtain ⟨_, _, h⟩ := bind_ok_iff.mp h
      obtain ⟨_, _, h⟩ := bind_ok_iff.mp h
      obtain ⟨_, _, h⟩ := bind_ok_iff.mp h
      obtain ⟨_, _, h⟩ := bind_ok_iff.mp h
      obtain ⟨_, _, h⟩ := bind_ok_iff.mp h
      obtain ⟨_, hops⟩ := Option.ite_none_left_eq_some.mp (pure_ok_iff.mp h)
      obtain rfl := Option.some.inj hops
      rfl
    · cases h

theorem updateMany_turned {nesting : UpdateNesting} {items : List Value} {parent ops : Value}
    (h : w.updateMany nesting r items parent = .ok ops) : ops = .object [] ∨ Payload.isOperation ops = true := by
  unfold updateMany at h
  obtain ⟨_, _, h⟩ := bind_ok_iff.mp h
  obtain ⟨_, _, h⟩ := bind_ok_iff.mp h
  obtain ⟨_, _, h⟩ := bind_ok_iff.mp h
  obtain ⟨_, _, h⟩ := bind_ok_iff.mp h
  obtain ⟨_, _, h⟩ := bind_ok_iff.mp h
  obtain ⟨canCreate, _, h⟩ := bind_ok_iff.mp h
  obtain ⟨connects, _, h⟩ := bind_ok_iff.mp h
  obtain ⟨upserts, _, h⟩ := bind_ok_iff.mp h
  obtain ⟨creates, _, h⟩ := bind_ok_iff.mp h
  obtain rfl := pure_ok_iff.mp h
  refine turned_of_keys fun kv hin => ?_
  have hkey {op : String} {items : List Value} (hop : op ∈ Payload.operations)
      (hin : kv ∈ Placement.member op items) : kv.1 ∈ Payload.operations := by
    rwa [Placement.mem_member hin]
  rcases List.mem_append.mp hin with hin | hin
  · rcases List.mem_append.mp hin with hin | hin
    · exact hkey (by decide) hin
    · exact hkey (by cases canCreate <;> decide) hin
  · exact hkey (by decide) hin

theorem updateNested_turned {levels : Nat} {parent ops : Value}
    (h : w.updateNested levels parent r v = .ok (some ops)) :
    ops = .object [] ∨ Payload.isOperation ops = true := by
  cases levels with
  | zero => cases h
  | succ levels =>
      rw [updateNested] at h
      dsimp only at h
      split at h
      · obtain ⟨ops', hops, hsome⟩ := map_ok_iff.mp h
        exact Option.some.inj hsome ▸ updateMany_turned hops
      · exact .inr (updateOne_turned h)

/-- Operations are taken as they are. -/
theorem updateNested_operation {levels : Nat} {parent : Value} (h : Payload.isOperation v = true) :
    w.updateNested (levels + 1) parent r v = .ok (some v) := by
  cases v with
  | object o =>
      rw [updateNested]
      dsimp only
      rw [updateOne, if_pos h]
      rfl
  | null | bool _ | int _ | float _ | decimal _ | date _ | datetime _ | text _ | list _ => cases h

/-! ## Members at rest -/

/-- A step leaves every payload as it is that has the member. -/
def Rests (step : Object → String → Except Failure Object) (key : String) (v : Value) : Prop :=
  ∀ body : Object, body.get key = v → step body key = .ok body

/-- Every member is seen by the writer and at rest, but for those under the keys to come. -/
def Settling (step : Object → String → Except Failure Object) (dropped rest : List String) (body : Object) : Prop :=
  body.keys.Nodup ∧ ∀ kv ∈ body, kv.1 ∉ dropped ∧ (kv.1 ∈ rest ∨ Rests step kv.1 kv.2)

/-- The steps on the members of a record itself, as it is created and as it is updated. -/
inductive TopStep (w : Writer) (e : Entity) : BodyKind → (Object → String → Except Failure Object) → Prop
  | created : TopStep w e .created (w.createTopMember e)
  | changed (id : Value) : TopStep w e .changed (w.updateTopMember e id)

namespace TopStep

variable {kind : BodyKind} {step : Object → String → Except Failure Object} (ht : w.TopStep e kind step)

include ht

theorem rests_kept (h : KeptOnTop e key v) : Rests step key v := by
  rintro body rfl
  cases ht with
  | created => exact topStep_kept h
  | changed id => exact topStep_kept h

theorem rests_turned (hdepth : 0 ≤ w.maxDepth) (ha : e.ForeignApart) (h : e.Turned (key, v)) : Rests step key v := by
  rintro body rfl
  cases ht with
  | created => exact createTopMember_again hdepth ha h
  | changed id =>
      refine topStep_turned ha h fun r hop => ?_
      rw [levels_succ hdepth, updateNested_operation hop]
      exact congrArg Except.ok (set_operation hop)

theorem treats {next : Object} (h : step body key = .ok next) : ∃ nest : Relation → Value → Value → Prop,
    w.Treats kind (KeptOnTop e key (body.get key)) nest e key (body.get key) body next ∧
      ∀ r v ops, nest r v ops → ops = .object [] ∨ Payload.isOperation ops = true := by
  cases ht with
  | created => exact ⟨_, (createTopMember_treats h).2, fun _ _ _ hops => createNested_turned hops⟩
  | changed id => exact ⟨_, (updateTopMember_treats h).2, fun _ _ _ hops => updateNested_turned hops⟩

/-- A step leaves members behind that were there, under other keys, and members that are at rest. These are under the
key of the step or under a relation. -/
theorem leaves (hdepth : 0 ≤ w.maxDepth) (ha : e.ForeignApart) (hn : body.keys.Nodup) {next : Object}
    (h : step body key = .ok next) : next.keys.Nodup ∧ ∀ kv ∈ next, (kv ∈ body ∧ kv.1 ≠ key) ∨
      (kv.1 = key ∨ (e.relation? kv.1).isSome = true) ∧ Rests step kv.1 kv.2 := by
  obtain ⟨nest, hstep, hnest⟩ := ht.treats h
  have herase : (Object.erase key body).keys.Nodup := Object.nodup_keys_erase hn
  have herased : ∀ kv ∈ Object.erase key body, kv ∈ body ∧ kv.1 ≠ key :=
    fun kv hkv => ⟨Object.mem_of_mem_erase hkv, Object.ne_of_mem_erase hn hkv⟩
  have hset {r : Relation} {ops : Value} (hr : e.relationForField? key = some r)
      (hop : Payload.isOperation ops = true) : ∀ kv ∈ Object.set r.name ops (Object.erase key body),
        (kv ∈ body ∧ kv.1 ≠ key) ∨ (kv.1 = key ∨ (e.relation? kv.1).isSome = true) ∧ Rests step kv.1 kv.2 := by
    intro kv hkv
    have hsome : (e.relation? r.name).isSome = true := Entity.relation?_of_foreign hr
    rcases Object.mem_of_mem_set hkv with rfl | hkv
    · exact .inr ⟨.inr hsome, ht.rests_turned hdepth ha ⟨hsome, .inr hop⟩⟩
    · exact .inl (herased kv hkv)
  cases hstep with
  | kept hkept =>
      refine ⟨hn, fun kv hkv => ?_⟩
      by_cases hk : kv.1 = key
      · subst hk
        rw [Object.get_of_mem hn hkv] at hkept
        exact .inr ⟨.inl rfl, ht.rests_kept hkept⟩
      · exact .inl ⟨hkv, hk⟩
  | nested hr _ hops =>
      have hsome : (e.relation? key).isSome = true := by rw [hr]; rfl
      refine ⟨Object.nodup_keys_set hn, fun kv hkv => ?_⟩
      rcases Object.eq_or_ne_of_mem_set hn hkv with rfl | ⟨hk, hkv⟩
      · exact .inr ⟨.inl rfl, ht.rests_turned hdepth ha ⟨hsome, hnest _ _ _ hops⟩⟩
      · exact .inl ⟨hkv, hk⟩
  | erased => exact ⟨herase, fun kv hkv => .inl (herased kv hkv)⟩
  | linked _ hr _ hc =>
      obtain ⟨_, filter, _, rfl⟩ := connect_guarded hc
      exact ⟨Object.nodup_keys_set herase, hset hr rfl⟩
  | cut _ hr => exact ⟨Object.nodup_keys_set herase, hset hr rfl⟩

/-- What the steps on all members leave behind is left alone by all of them. -/
theorem again (hdepth : 0 ≤ w.maxDepth) (ha : e.ForeignApart) (hn : body.keys.Nodup)
    (hkept : ∀ key ∈ body.keys, key ∉ dropped) (hdropped : ∀ key ∈ dropped, e.relation? key = none)
    (h : body.keys.foldlM step body = .ok out) :
    out.without dropped = out ∧ out.keys.Nodup ∧ out.keys.foldlM step out = .ok out := by
  have hstart : Settling step dropped body.keys body :=
    ⟨hn, fun kv hkv => ⟨hkept _ (List.mem_map_of_mem hkv), .inl (List.mem_map_of_mem hkv)⟩⟩
  obtain ⟨hnodup, hall⟩ : Settling step dropped [] out := by
    refine foldlM_ok_invariant (I := Settling step dropped) (fun {key rest state next} hin hi hstep => ?_) hstart h
    obtain ⟨hnext, hleft⟩ := ht.leaves hdepth ha hi.1 hstep
    refine ⟨hnext, fun kv hkv => ?_⟩
    rcases hleft kv hkv with ⟨hold, hne⟩ | ⟨hkey, hrests⟩
    · obtain ⟨hseen, hsettling⟩ := hi.2 kv hold
      exact ⟨hseen, hsettling.imp_left fun hin => (List.mem_cons.mp hin).resolve_left hne⟩
    · refine ⟨?_, .inr hrests⟩
      rcases hkey with rfl | hsome
      · exact hkept _ hin
      · intro hin
        rw [hdropped _ hin] at hsome
        cases hsome
  refine ⟨List.filter_eq_self.mpr fun kv hkv => by simpa using (hall kv hkv).1, hnodup, ?_⟩
  have hsteps : ∀ keys : List String, keys ⊆ out.keys → keys.foldlM step out = .ok out := by
    intro keys hsub
    induction keys with
    | nil => rfl
    | cons key keys ih =>
        obtain ⟨hkey, hrest⟩ := List.cons_subset.mp hsub
        obtain ⟨kv, hkv, rfl⟩ := List.mem_map.mp hkey
        have hrests : Rests step kv.1 kv.2 := (hall kv hkv).2.resolve_left List.not_mem_nil
        rw [List.foldlM_cons, hrests out (Object.get_of_mem hnodup hkv)]
        exact ih hrest
  exact hsteps _ (List.Subset.refl _)

end TopStep

/-- What was transformed is taken as it is when it is transformed again, as a new record and as changes to one. -/
theorem transformed_again (w : Writer) (hdepth : 0 ≤ w.maxDepth) {entity : String} {e : Entity} {omitted : List String}
    {payload : Object} (he : w.view.schema.entity entity = .ok e) (ha : e.ForeignApart)
    (homitted : w.view.omitted entity = .ok omitted) (hn : payload.keys.Nodup)
    (hscalar : ∀ key ∈ omitted ++ w.auditFields, e.relation? key = none) :
    (∀ out, w.create entity payload = .ok out → w.create entity out = .ok out) ∧
    ((∀ key ∈ e.keys, e.relation? key = none) →
      ∀ id out, w.update entity id payload = .ok out → w.update entity id out = .ok out) := by
  have hstrip (o : Object) : w.strip entity o = .ok (o.without (omitted ++ w.auditFields)) := by
    rw [strip, homitted]
    rfl
  have hkeys : w.view.schema.keys entity = .ok e.keys := by rw [Schema.keys, he]; rfl
  have hkept {dropped : List String} : ∀ key ∈ (payload.without dropped).keys, key ∉ dropped := by
    intro key hkey
    obtain ⟨kv, hkv, rfl⟩ := List.mem_map.mp hkey
    exact (Object.mem_without_iff.mp hkv).2
  constructor
  · intro out h
    have hcreate (o : Object) : w.create entity o =
        let body := o.without (omitted ++ w.auditFields)
        body.keys.foldlM (w.createTopMember e) body := by
      rw [create, hstrip, he]
      rfl
    rw [hcreate] at h
    obtain ⟨hsame, _, hagain⟩ :=
      TopStep.created.again hdepth ha (Object.nodup_keys_without hn) hkept hscalar h
    rw [hcreate, hsame]
    exact hagain
  · intro hscalarKeys id out h
    have hupdate (o : Object) : w.update entity id o =
        let body := (o.without (omitted ++ w.auditFields)).without e.keys
        body.keys.foldlM (w.updateTopMember e id) body := by
      rw [update, hstrip, hkeys, he]
      rfl
    simp only [Object.without_without] at hupdate
    rw [hupdate] at h
    have hdropped : ∀ key ∈ omitted ++ w.auditFields ++ e.keys, e.relation? key = none := fun key hin =>
      (List.mem_append.mp hin).elim (hscalar key) (hscalarKeys key)
    obtain ⟨hsame, _, hagain⟩ :=
      (TopStep.changed id).again hdepth ha (Object.nodup_keys_without hn) hkept hdropped h
    rw [hupdate, hsame]
    exact hagain

def librarySigned : Object := [("id", .int 3), ("title", .text "Emma"), ("author", .object [("connect",
  .object [("id", .int 7)])])]

/-- A book is linked to its author once, as it is created and as it is updated. -/
theorem signedBook_again :
    let book := (librarySchema.entity "Book").toOption.getD default
    0 ≤ librarian.maxDepth ∧ librarySchema.entity "Book" = .ok book ∧ book.ForeignApart ∧
    librarian.view.omitted "Book" = .ok [] ∧ signedBook.keys.Nodup ∧
    (∀ key ∈ [] ++ librarian.auditFields, book.relation? key = none) ∧
    (∀ key ∈ book.keys, book.relation? key = none) ∧
    librarian.create "Book" signedBook = .ok librarySigned ∧
    librarian.create "Book" librarySigned = .ok librarySigned ∧
    librarian.update "Book" (.int 3) signedBook = .ok signedChanges ∧
    librarian.update "Book" (.int 3) signedChanges = .ok signedChanges := by
  intro book
  have hdepth : 0 ≤ librarian.maxDepth := by decide
  have he : librarySchema.entity "Book" = .ok book := rfl
  have hapart : book.Apart := by unfold Entity.Apart; decide
  have homitted : librarian.view.omitted "Book" = .ok [] := rfl
  have hn : signedBook.keys.Nodup := by decide
  have haudit : ∀ key ∈ [] ++ librarian.auditFields, book.relation? key = none := by decide
  have hkeys : ∀ key ∈ book.keys, book.relation? key = none := by decide
  have hcreated : librarian.create "Book" signedBook = .ok librarySigned := rfl
  have hupdated : librarian.update "Book" (.int 3) signedBook = .ok signedChanges := rfl
  obtain ⟨hcreate, hupdate⟩ :=
    transformed_again librarian hdepth he hapart.foreignApart homitted hn haudit
  exact ⟨hdepth, he, hapart.foreignApart, homitted, hn, haudit, hkeys, hcreated, hcreate _ hcreated, hupdated,
    hupdate hkeys _ _ hupdated⟩

/-! Essays that are known by their authors, and reviews with a field that is called as a relation. -/

def essaySchema : Schema := ⟨[
  ("Essay", .ok ⟨"Essay", ["author"], [⟨"authorId", .scalar, "int", false, false, false, false⟩,
      ⟨"author", .relation, "Author", true, false, false, false⟩],
    [⟨"author", "Author", .one, ["authorId"], ["id"]⟩]⟩),
  ("Review", .ok ⟨"Review", ["id"], [⟨"id", .scalar, "int", false, false, true, false⟩,
      ⟨"criticId", .scalar, "int", false, false, false, false⟩,
      ⟨"critic", .scalar, "int", false, false, false, false⟩],
    [⟨"critic", "Author", .one, ["criticId"], ["id"]⟩, ⟨"judge", "Author", .one, ["critic"], ["id"]⟩]⟩),
  ("Author", .ok ⟨"Author", ["id"], [⟨"id", .scalar, "int", false, false, true, false⟩], []⟩)]⟩

def essayist : Writer := { view := ⟨essaySchema, ⟨[]⟩, .principal {}⟩ }

def linked (v : Value) : Value := .object [("connect", .object [("id", v)])]

/-- The link to the author is lost from the changes to an essay, a critic is linked once more, and a link is refused
for its depth. -/
theorem links_unstable :
    (∀ entity ∈ ["Essay", "Review"], essayist.view.omitted entity = .ok [] ∧
      ∃ e, essaySchema.entity entity = .ok e ∧ ∀ key ∈ essayist.auditFields, e.relation? key = none) ∧
    (essayist.update "Essay" (.int 1) [("authorId", .int 7)] = .ok [("author", linked (.int 7))] ∧
      essayist.update "Essay" (.int 1) [("author", linked (.int 7))] = .ok []) ∧
    (essayist.create "Review" [("criticId", .int 7)] = .ok [("critic", linked (.int 7))] ∧
      essayist.create "Review" [("critic", linked (.int 7))] = .ok [("judge", linked (linked (.int 7)))]) ∧
    let barred := { librarian with maxDepth := -1 }
    barred.create "Book" [("authorId", .int 7)] = .ok [("author", linked (.int 7))] ∧
      barred.create "Book" [("author", linked (.int 7))] = .error barred.tooDeep := by
  refine ⟨?_, ⟨rfl, rfl⟩, ⟨rfl, rfl⟩, rfl, rfl⟩
  intro entity hentity
  rcases List.mem_pair.mp hentity with rfl | rfl
  · exact ⟨rfl, _, rfl, by decide⟩
  · exact ⟨rfl, _, rfl, by decide⟩

end Writer

end RecordGraph
