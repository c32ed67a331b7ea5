import RecordGraph.Proofs.Mutation.Created
import RecordGraph.Proofs.Schema.Names

/-!
# Accepted records

Of the members of a new record only those can be refused by which it is related to other records, and
none of them is refused because of the others.
-/

namespace RecordGraph

/-! ## Members that relate records -/

namespace Entity

variable {e : Entity} {kv : String × Value} {key : String} {v : Value}

/-- A member relates its record to others: it is a relation that is given, or a foreign key. -/
def Relates (e : Entity) (kv : String × Value) : Prop :=
  if (e.field? kv.1).all Field.isRelation then kv.2.isPresent = true
  else (e.relationForField? kv.1).isSome = true ∧ kv.2.isNull = false

/-- A member is a relation that was turned into operations. -/
def Turned (e : Entity) (kv : String × Value) : Prop :=
  (e.relation? kv.1).isSome = true ∧ (kv.2 = .object [] ∨ Payload.isOperation kv.2 = true)

theorem not_relates_null : ¬ e.Relates (key, .null) := by
  rw [Relates]
  split
  · exact nofun
  · exact fun h => nomatch h.2

/-- No foreign key goes by the name of a relation. -/
def ForeignApart (e : Entity) : Prop :=
  ∀ key, e.IsScalar key → (e.relation? key).isSome = true → e.relationForField? key = none

theorem Apart.foreignApart {e : Entity} (h : e.Apart) : e.ForeignApart := by
  intro key hscalar hsome
  rw [h.relation?_eq_none hscalar] at hsome
  cases hsome

end Entity

namespace Writer

variable {w : Writer} {e : Entity} {entity key path : String} {r : Relation} {v : Value} {kv : String × Value}
  {row body result next : Object}

theorem isOperation_of_mem (hin : kv ∈ body) (hop : kv.1 ∈ Payload.operations) :
    Payload.isOperation (.object body) = true := by
  have hkey : kv.1 ∈ body.keys := List.mem_map.mpr ⟨kv, hin, rfl⟩
  refine List.any_eq_true.mpr ⟨kv.1, hop, ?_⟩
  rw [Object.contains, Option.isSome_iff_ne_none, ne_eq, Object.get?_eq_none_iff, not_not]
  exact hkey

theorem turned_of_keys (h : ∀ kv ∈ body, kv.1 ∈ Payload.operations) :
    Value.object body = .object [] ∨ Payload.isOperation (.object body) = true := by
  cases body with
  | nil => exact .inl rfl
  | cons kv rest => exact .inr (isOperation_of_mem List.mem_cons_self (h kv List.mem_cons_self))

theorem Placement.operations_turned (ps : List Placement) :
    Value.object (operations ps) = .object [] ∨ Payload.isOperation (.object (operations ps)) = true := by
  refine turned_of_keys fun kv hin => ?_
  simp only [operations, List.mem_append] at hin
  rcases hin with (hin | hin) | hin <;> simp [mem_member hin, Payload.operations]

theorem createOne_turned {nesting : Nesting} {out : Value} (h : w.createOne nesting r v path = .ok out) :
    Payload.isOperation out = true := by
  unfold createOne at h
  split at h
  next hop => exact pure_ok_iff.mp h ▸ hop
  next =>
    obtain ⟨_, _, h⟩ := bind_ok_iff.mp h
    obtain ⟨omitted, _, h⟩ := bind_ok_iff.mp h
    split at h
    · obtain ⟨_, _, h⟩ := bind_ok_iff.mp h
      obtain ⟨_, _, h⟩ := bind_ok_iff.mp h
      exact pure_ok_iff.mp h ▸ rfl
    · cases h

theorem createNested_turned {levels : Nat} {out : Value} (h : w.createNested levels r v path = .ok out) :
    out = .object [] ∨ Payload.isOperation out = true := by
  cases levels with
  | zero => cases h
  | succ levels =>
      rw [createNested] at h
      dsimp only at h
      split at h
      · obtain ⟨_, _, h⟩ := bind_ok_iff.mp h
        obtain ⟨_, _, h⟩ := bind_ok_iff.mp h
        obtain ⟨_, _, h⟩ := bind_ok_iff.mp h
        obtain ⟨ps, _, h⟩ := bind_ok_iff.mp h
        exact pure_ok_iff.mp h ▸ Placement.operations_turned ps
      · exact .inr (createOne_turned h)

/-- Operations are taken as they are. -/
theorem createNested_operation {levels : Nat} (h : Payload.isOperation v = true) :
    w.createNested (levels + 1) r v path = .ok v := by
  cases v with
  | object o =>
      rw [createNested]
      dsimp only
      rw [createOne, if_pos h]
      rfl
  | null | bool _ | int _ | float _ | decimal _ | date _ | datetime _ | text _ | list _ => cases h

/-! ## One member -/

section
variable (e : Entity) (key : String) (v : Value) (body : Object) (nest link : Relation → Except Failure Object)

/-- A step on a member of a record itself, by what is to be done to a relation and to a foreign key. -/
def topStep : Except Failure Object :=
  if (e.field? key).all Field.isRelation then
    match e.relation? key with
    | none => throw (unexpectedKey key)
    | some r => if v.isPresent then nest r else return body
  else match e.relationForField? key with
  | none => return body
  | some r => link r

variable {e key v body nest link}

theorem topStep_kept (h : KeptOnTop e key v) : topStep e key v body nest link = .ok body := by
  unfold topStep
  rcases h with ⟨hscalar, hnone⟩ | ⟨hrelation, hsome, habsent⟩
  · rw [if_neg (Bool.eq_false_iff.mp hscalar), hnone]
    rfl
  · obtain ⟨r, hr⟩ := Option.isSome_iff_exists.mp hsome
    rw [if_pos (by simpa [Entity.IsScalar] using hrelation), hr]
    dsimp only
    rw [if_neg (Bool.eq_false_iff.mp habsent)]
    rfl

theorem topStep_turned (ha : e.ForeignApart) (h : e.Turned (key, v))
    (hnest : ∀ r, Payload.isOperation v = true → nest r = .ok body) : topStep e key v body nest link = .ok body := by
  obtain ⟨hsome, hv⟩ := h
  by_cases hscalar : e.IsScalar key
  · exact topStep_kept (.inl ⟨hscalar, ha key hscalar hsome⟩)
  · rcases hv with rfl | hop
    · exact topStep_kept (.inr ⟨hscalar, hsome, rfl⟩)
    · obtain ⟨r, hr⟩ := Option.isSome_iff_exists.mp hsome
      unfold topStep
      rw [if_pos (by simpa [Entity.IsScalar] using hscalar), hr]
      dsimp only
      split
      · exact hnest r hop
      · rfl

end

theorem set_operation (hop : Payload.isOperation (body.get key) = true) : Object.set key (body.get key) body = body :=
  Object.set_get fun hnull => by rw [hnull] at hop; cases hop

theorem levels_succ (hdepth : 0 ≤ w.maxDepth) : w.levels = w.maxDepth.toNat + 1 := by
  rw [levels]
  omega

/-- A step on a member depends on nothing but the member. -/
theorem createTopMember_alone {out : Object}
    (h : w.createTopMember e [(key, result.get key)] key = .ok out) :
    ∃ next, w.createTopMember e result key = .ok next := by
  unfold createTopMember at h ⊢
  rw [Object.get_single] at h
  dsimp only at h ⊢
  split at h
  next hfield =>
    rw [if_pos hfield]
    split at h
    · cases h
    · split at h
      next hpresent =>
        obtain ⟨ops, hops, _⟩ := bind_ok_iff.mp h
        exact ⟨_, by rw [if_pos hpresent, hops]; rfl⟩
      next hpresent => exact ⟨_, by rw [if_neg hpresent]; rfl⟩
  next hfield =>
    rw [if_neg hfield]
    split at h
    · exact ⟨_, rfl⟩
    · split at h
      · exact ⟨_, rfl⟩
      · obtain ⟨link, hlink, _⟩ := bind_ok_iff.mp h
        exact ⟨_, by rw [hlink]; rfl⟩

/-- What a step adds are operations on a relation. -/
theorem createTopMember_turned (h : w.createTopMember e result key = .ok next) (hkv : kv ∈ next) :
    kv ∈ result ∨ e.Turned kv := by
  cases (createTopMember_treats h).2 with
  | kept => exact .inl hkv
  | nested hr _ hops =>
      rcases Object.mem_of_mem_set hkv with rfl | hin
      · exact .inr ⟨by rw [hr]; rfl, createNested_turned hops⟩
      · exact .inl hin
  | erased => exact .inl (Object.mem_of_mem_erase hkv)
  | linked _ hr _ hc =>
      obtain ⟨_, filter, _, rfl⟩ := connect_guarded hc
      rcases Object.mem_of_mem_set hkv with rfl | hin
      · exact .inr ⟨Entity.relation?_of_foreign hr, .inr rfl⟩
      · exact .inl (Object.mem_of_mem_erase hin)
  | cut hk => cases hk

/-- A member that relates nothing is kept, or left out where only null relates nothing. -/
theorem createTopMember_plain (hknown : e.Knows key) (h : ¬ e.Relates (key, result.get key)) :
    w.createTopMember e result key = .ok result ∨
    (∀ v, ¬ e.Relates (key, v) → v = .null) ∧ w.createTopMember e result key = .ok (result.erase key) := by
  unfold createTopMember
  dsimp only
  by_cases hfield : (e.field? key).all Field.isRelation = true
  · obtain ⟨r, hr⟩ := Option.isSome_iff_exists.mp (hknown hfield)
    rw [Entity.Relates, if_pos hfield] at h
    refine .inl ?_
    rw [if_pos hfield, hr]
    dsimp only
    rw [if_neg h]
    rfl
  · rw [if_neg hfield]
    cases hr : e.relationForField? key with
    | none => exact .inl rfl
    | some r =>
        have hnull : ∀ v, ¬ e.Relates (key, v) → v = .null := by
          intro v hv
          rw [Entity.Relates, if_neg hfield, hr] at hv
          cases v with
          | null => rfl
          | _ => exact absurd ⟨rfl, rfl⟩ hv
        refine .inr ⟨hnull, ?_⟩
        rw [hnull _ h]
        rfl

/-- A relation that was turned into operations stays as it is. -/
theorem createTopMember_again (hdepth : 0 ≤ w.maxDepth) (ha : e.ForeignApart) (h : e.Turned (key, result.get key)) :
    w.createTopMember e result key = .ok result := by
  refine topStep_turned ha h fun r hop => ?_
  rw [levels_succ hdepth, createNested_operation hop]
  exact congrArg Except.ok (set_operation hop)

/-! ## Records -/

theorem strip_single (hs : w.strip entity row = .ok body) (hkv : kv ∈ body) :
    w.strip entity [kv] = .ok [kv] := by
  obtain ⟨omitted, homitted, hs⟩ := bind_ok_iff.mp hs
  obtain rfl := pure_ok_iff.mp hs
  have hseen := (List.mem_filter.mp hkv).2
  refine bind_ok_iff.mpr ⟨omitted, homitted, pure_ok_iff.mpr ?_⟩
  exact List.filter_eq_self.mpr fun given hgiven => by rwa [List.mem_singleton.mp hgiven]

/-- A member given alone is worked on in one step. -/
theorem create_single (he : w.view.schema.entity entity = .ok e) (hs : w.strip entity row = .ok body)
    (hkv : kv ∈ body) : w.create entity [kv] = w.createTopMember e [kv] kv.1 := by
  rw [create, strip_single hs hkv, he]
  show [kv.1].foldlM (w.createTopMember e) [kv] = _
  rw [List.foldlM_cons]
  exact bind_pure _

/-- A new record is accepted if each of the members is by which it is related to others, given alone. -/
theorem create_accepted (he : w.view.schema.entity entity = .ok e) (hdepth : 0 ≤ w.maxDepth)
    (hapart : ∀ f ∈ e.scalars, e.relation? f.name = none) (hs : w.strip entity row = .ok body)
    (hknown : ∀ kv ∈ body, e.Knows kv.1)
    (hrelating : ∀ kv ∈ body, e.Relates kv → ∃ out, w.create entity [kv] = .ok out) :
    ∃ whole, w.create entity row = .ok whole := by
  have hstep : ∀ key ∈ body.keys, ∀ result, (∀ kv ∈ result, kv ∈ body ∨ e.Turned kv) →
      ∃ next, w.createTopMember e result key = .ok next ∧ ∀ kv ∈ next, kv ∈ body ∨ e.Turned kv := by
    intro key hkey result hall
    obtain ⟨given, hgiven, rfl⟩ := List.mem_map.mp hkey
    obtain ⟨next, hnext⟩ : ∃ next, w.createTopMember e result given.1 = .ok next := by
      by_cases hrelates : e.Relates (given.1, result.get given.1)
      · have hin : (given.1, result.get given.1) ∈ result := Object.mem_of_get_ne_null fun hnull => by
          rw [hnull, Entity.Relates] at hrelates
          split at hrelates
          · cases hrelates
          · cases hrelates.2
        rcases hall _ hin with hbody | hturned
        · obtain ⟨out, hout⟩ := hrelating _ hbody hrelates
          exact createTopMember_alone (create_single he hs hbody ▸ hout)
        · exact ⟨_, createTopMember_again hdepth (Entity.Apart.foreignApart hapart) hturned⟩
      · rcases createTopMember_plain (w := w) (hknown given hgiven) hrelates with hnext | ⟨_, hnext⟩
        · exact ⟨_, hnext⟩
        · exact ⟨_, hnext⟩
    refine ⟨next, hnext, fun kv hkv => ?_⟩
    exact (createTopMember_turned hnext hkv).elim (hall kv) .inr
  have hstart : ∀ kv ∈ body, kv ∈ body ∨ e.Turned kv := fun kv hkv => .inl hkv
  obtain ⟨whole, hwhole, _⟩ := foldlM_succeeds hstep hstart
  exact ⟨whole, bind_ok_iff.mpr ⟨body, hs, bind_ok_iff.mpr ⟨e, he, hwhole⟩⟩⟩

/-- A new record that is related to no other is written as it is. -/
theorem create_plain (he : w.view.schema.entity entity = .ok e) (hs : w.strip entity row = .ok body)
    (hknown : ∀ kv ∈ body, e.Knows kv.1) (hplain : ∀ kv ∈ body, ¬ e.Relates kv) :
    ∃ whole, w.create entity row = .ok whole ∧ ∀ key, whole.get key = body.get key := by
  have hstep : ∀ key ∈ body.keys, ∀ result, (result ⊆ body ∧ ∀ other, result.get other = body.get other) →
      ∃ next, w.createTopMember e result key = .ok next ∧
        (next ⊆ body ∧ ∀ other, next.get other = body.get other) := by
    rintro key hkey result ⟨hsub, hget⟩
    obtain ⟨given, hgiven, rfl⟩ := List.mem_map.mp hkey
    have hrelates : ¬ e.Relates (given.1, result.get given.1) := by
      intro h
      rw [hget] at h
      refine hplain _ (Object.mem_of_get_ne_null fun hnull => ?_) h
      exact Entity.not_relates_null (hnull ▸ h)
    rcases createTopMember_plain (w := w) (hknown given hgiven) hrelates with hnext | ⟨hnull, hnext⟩
    · exact ⟨result, hnext, hsub, hget⟩
    · have hnulls : ∀ v, (given.1, v) ∈ result → v = .null := fun v hv => hnull v (hplain _ (hsub hv))
      refine ⟨_, hnext, fun kv hkv => hsub (Object.mem_of_mem_erase hkv), fun other => ?_⟩
      exact (Object.get_erase_null hnulls other).trans (hget other)
  have hstart : body ⊆ body ∧ ∀ other, body.get other = body.get other := ⟨List.Subset.refl _, fun _ => rfl⟩
  obtain ⟨whole, hwhole, _, hget⟩ := foldlM_succeeds hstep hstart
  exact ⟨whole, bind_ok_iff.mpr ⟨body, hs, bind_ok_iff.mpr ⟨e, he, hwhole⟩⟩, hget⟩

end Writer

end RecordGraph
