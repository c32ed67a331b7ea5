import RecordGraph.Proofs.Access.Conjunction
import RecordGraph.Proofs.Failure.Refusal
import RecordGraph.Proofs.Mutation.Parents
import RecordGraph.Proofs.Relational.Keys
import RecordGraph.Proofs.Value.Reordering

/-!
# Ids of several parts

An id of an entity with several key fields is refused, or it stands for a condition that says of each of them what it
is equal to, and of nothing else. Such a condition is met by one row at most, whatever guard is joined to it.
Texts are counted and read part by part. Objects are taken as they are, so this is known of those only that have
exactly the key fields.
-/

namespace RecordGraph

/-- A row has the value of a member in the column that the member names. -/
def Model.Carries (m : Model) (db : Database) (row : Row) (kv : String × Value) : Prop :=
  ∃ column cond, m.column? kv.1 = some column ∧ column.equalTo kv.2 = .ok cond ∧ cond.selects db row = true

/-- A value that is equal to one for the whole key is one for the whole key. -/
theorem Model.IsKey.of_same {m : Model} {parts : Object} {v : Value} (h : m.IsKey (.object parts))
    (hsame : (Value.object parts).same v = true) : m.IsKey v := by
  cases v with
  | object others =>
      refine ⟨h.1, fun k hk => ?_⟩
      obtain ⟨kv, hkv, rfl⟩ := List.mem_map.mp (h.2 k hk)
      simp only [Value.same, Bool.and_eq_true, Value.sameMembers_eq_all, List.all_eq_true] at hsame
      have hfound := hsame.2 kv hkv
      cases hw : Object.get? kv.1 others with
      | none =>
          rw [hw] at hfound
          cases hfound
      | some w => exact List.mem_map.mpr ⟨_, Object.mem_of_get? hw, rfl⟩
  | _ => simp [Value.same, Value.worth?] at hsame

namespace Key

variable {s : Schema} {entity : String} {e : Entity} {id : Value} {condition values : Object} {c : Catalog} {m : Model}
  {name : String}

/-! ## What ids are read as -/

theorem readPart_validating {type part : String} : Validating (readPart type part) := by
  have hinvalid : Validating (throw (.validation "invalid_id" (some [("value", .text part), ("type", .text type)])) :
      Except Failure Value) := .error ⟨_, _, rfl⟩
  unfold readPart
  dsimp only
  split
  · split
    · exact .ok
    · exact hinvalid
  · split
    · exact .ok
    · exact hinvalid
  · split
    · exact .ok
    · exact hinvalid
  · exact .ok
  · exact .ok

/-- An id of a known entity is only refused as an invalid one. -/
theorem whereId_validating (he : s.entity entity = .ok e) : Validating (whereId s entity id) := by
  unfold whereId
  refine (FailsOnly.of_ok he).bind fun e _ => ?_
  dsimp only
  split
  · split
    · exact readPart_validating.bind fun _ _ => .ok
    · exact .ok
  · split
    · exact .ok
    · split
      · exact .error ⟨_, _, rfl⟩
      · split
        · exact .error ⟨_, _, rfl⟩
        · refine FailsOnly.bind (.mapM fun kp _ => ?_) fun _ _ => .ok
          exact readPart_validating.bind fun _ _ => .ok
    · exact .error ⟨_, _, rfl⟩

/-- An object with each of the key fields once and nothing else; an id of any other kind. -/
def Exact (keys : List String) : Value → Prop
  | .object parts => (Object.keys parts).Nodup ∧ ∀ k, k ∈ Object.keys parts ↔ k ∈ keys
  | _ => True

/-- What an exact id of several parts is read as is exact. -/
theorem whereId_exact (he : s.entity entity = .ok e) (hc : e.isComposite = true) (hid : Exact e.keys id)
    (h : whereId s entity id = .ok condition) :
    ∃ values, condition = [(e.keyName, .object values)] ∧ Exact e.keys (.object values) := by
  obtain ⟨e', he', h⟩ := bind_ok_iff.mp h
  rw [he] at he'
  cases he'
  simp only [hc, Bool.not_true, Bool.false_eq_true, ↓reduceIte] at h
  split at h
  · exact ⟨_, (pure_ok_iff.mp h).symm, hid⟩
  · split at h
    · cases h
    · split at h
      · cases h
      · rename_i hlen
        obtain ⟨values, hvalues, h⟩ := bind_ok_iff.mp h
        exact ⟨_, (pure_ok_iff.mp h).symm, Object.nodup_keys_ofMembers, fun k => readParts_keys hlen hvalues⟩
  · cases h

/-! ## What is addressed -/

/-- The condition that the values are those of the key is one on the columns that they name. Joined to a guard, as
operations look for rows by it, it is met by one row at most. An empty guard leaves it as it is. -/
structure Pinpoints (c : Catalog) (m : Model) (name : String) (values : Object) : Prop where
  reads : ∀ db row, c.Satisfies m db row (.object [(name, .object values)]) ↔ ∀ kv ∈ values, m.Carries db row kv
  single : ∀ db : Database, db.Keyed m → ∀ guard, (Object.keys guard).Nodup → ∀ cond,
    c.condition m (.object (Guard.merge [(name, .object values)] guard)) = .ok cond → (db.select m cond).length ≤ 1

theorem Exact.isKey (h : Exact m.keys (.object values)) (hmany : 1 < m.keys.length) : m.IsKey (.object values) :=
  ⟨hmany, fun k hk => (h.2 k).mpr hk⟩

/-- The values for the whole key are compared column by column. -/
theorem satisfies_key_iff (h : Exact m.keys (.object values)) (hmany : 1 < m.keys.length) (ha : m.AddressedBy name)
    (db : Database) (row : Row) :
    c.Satisfies m db row (.object [(name, .object values)]) ↔ ∀ kv ∈ values, m.Carries db row kv := by
  have hcolumn : m.column? name = none := ha.keys.elim (fun hone => by simp [hone] at hmany) And.right
  have hne : values ≠ [] := by
    rintro rfl
    have hnone : m.keys = [] := List.eq_nil_iff_forall_not_mem.mpr fun k hk => nomatch (h.2 k).mpr hk
    simp [hnone] at hmany
  obtain ⟨members, hmembers, hall⟩ := Model.compoundKey?_some hne fun kv hkv =>
    Model.column?_of_key ((h.2 kv.1).mp (List.mem_map_of_mem hkv))
  have hread : c.memberCondition m name (.object values) =
      Condition.all <$> members.mapM fun member => member.1.equalTo member.2 := by
    rw [Catalog.memberCondition_name ha.plain, ha.unlinked]
    simp only [Model.cellCondition, hcolumn, hmembers]
  calc c.Satisfies m db row (.object [(name, .object values)])
      ↔ c.SatisfiesMember m db row (name, .object values) := by
        rw [Catalog.satisfies_object_iff, List.forall_mem_singleton]
    _ ↔ ∀ member ∈ members, ∃ cond, member.1.equalTo member.2 = .ok cond ∧ cond.selects db row = true := by
        rw [Catalog.SatisfiesMember, hread, ← Catalog.exists_all_selects_iff]
        simp only [map_ok_iff, mapM_ok_iff]
        constructor
        · rintro ⟨_, ⟨conds, hconds, rfl⟩, hselects⟩
          exact ⟨conds, hconds, hselects⟩
        · rintro ⟨conds, hconds, hselects⟩
          exact ⟨_, ⟨conds, hconds, rfl⟩, hselects⟩
    _ ↔ ∀ kv ∈ values, m.Carries db row kv := by
        rw [hall fun member => ∃ cond, member.1.equalTo member.2 = .ok cond ∧ cond.selects db row = true]
        simp only [Model.Carries, exists_and_left]

/-- A condition on the whole key that was joined to a guard still says what the key is equal to, be it in the words of
the guard. So one row meets it at most. -/
theorem merged_single {db : Database} (hdb : db.Keyed m) (ha : m.AddressedBy name) (hv : m.IsKey (.object values))
    {guard : Object} (hn : guard.keys.Nodup) {cond : Condition}
    (hcond : c.condition m (.object (Guard.merge [(name, .object values)] guard)) = .ok cond) :
    (db.select m cond).length ≤ 1 := by
  obtain ⟨v, horigin, hkeeps⟩ := Guard.merge_keeps hn
    (show Object.get? name [(name, .object values)] = some (.object values) by simp [Object.get?])
  have hkey : m.IsKey v := by
    rcases horigin with rfl | ⟨_, hsame⟩
    · exact hv
    · exact hv.of_same hsame
  have hmember {row : Row} (hr : cond.selects db row = true) : c.SatisfiesMember m db row (name, v) :=
    hkeeps Guard.conjunctive_satisfies ⟨cond, hcond, hr⟩
  exact hdb.select_single fun row hrow other _ hr ho =>
    Catalog.key_fixed ha hkey (hdb.filled row (Database.mem_rows.mp hrow)) (hmember hr) (hmember ho)

theorem Exact.pinpoints (h : Exact m.keys (.object values)) (hmany : 1 < m.keys.length) (ha : m.AddressedBy name) :
    Pinpoints c m name values where
  reads := satisfies_key_iff h hmany ha
  single _ hdb _ hn _ hcond := merged_single hdb ha (h.isKey hmany) hn hcond

/-- An exact id of several parts is refused as invalid, or stands for a condition that is one on each of the key fields
and on nothing else, which one row meets at most. -/
theorem exact_id_pinpoints (he : s.entity entity = .ok e) (hc : e.isComposite = true) (hid : Exact e.keys id) :
    (∃ failure, whereId s entity id = .error failure ∧ failure.IsInvalid) ∨
      ∃ values, whereId s entity id = .ok [(e.keyName, .object values)] ∧ (Object.keys values).Nodup ∧
        (∀ k, k ∈ Object.keys values ↔ k ∈ e.keys) ∧
        ∀ (c : Catalog) (m : Model), m.keys = e.keys → m.AddressedBy e.keyName → Pinpoints c m e.keyName values := by
  cases hread : whereId s entity id with
  | error failure => exact .inl ⟨failure, rfl, whereId_validating he failure hread⟩
  | ok condition =>
      obtain ⟨values, rfl, hexact⟩ := whereId_exact he hc hid hread
      have hmany : 1 < e.keys.length := by simpa [Entity.isComposite] using hc
      refine .inr ⟨values, rfl, hexact.1, hexact.2, fun c m hkeys ha => ?_⟩
      rw [← hkeys] at hexact hmany
      exact hexact.pinpoints hmany ha

/-! Posts and their tags. -/

def tagRow (post tag : Int) : Row := [("postId", .integer post), ("tagId", .integer tag)]

def tagRows : Database := { tables := [("PostTag", [tagRow 1 5, tagRow 1 6, tagRow 2 5])] }

def tagCatalog : Catalog := ⟨[("PostTag", Writer.tagModel)]⟩

/-- A text with both parts is met by one row at most. -/
theorem tagId_pinpoints :
    ∃ e, Writer.tagSchema.entity "PostTag" = .ok e ∧ e.isComposite = true ∧ Exact e.keys (.text "1~5") ∧
      whereId Writer.tagSchema "PostTag" (.text "1~5") = .ok (Writer.tagLink (.int 1)) ∧
      tagRows.Keyed Writer.tagModel ∧
      Pinpoints tagCatalog Writer.tagModel "postId_tagId" [("postId", .int 1), ("tagId", .int 5)] := by
  have hread : whereId Writer.tagSchema "PostTag" (.text "1~5") = .ok (Writer.tagLink (.int 1)) := rfl
  refine ⟨_, rfl, rfl, trivial, hread, ⟨by decide, by decide⟩, ?_⟩
  have he : Writer.tagSchema.entity "PostTag" = .ok _ := rfl
  have hid : Exact ["postId", "tagId"] (.text "1~5") := trivial
  rcases exact_id_pinpoints he rfl hid with ⟨_, herror, _⟩ | ⟨values, hvalues, _, _, hpinpoints⟩
  · rw [hread] at herror
    cases herror
  · rw [hread] at hvalues
    cases hvalues
    exact hpinpoints tagCatalog Writer.tagModel rfl ⟨by decide, by decide, .inr ⟨by decide, by decide⟩⟩

/-- An object with one part of two is taken as it is, and stands for a condition that two rows meet. -/
theorem part_of_tagId_shared :
    whereId Writer.tagSchema "PostTag" (.object [("postId", .int 1)]) =
      .ok [("postId_tagId", .object [("postId", .int 1)])] ∧
    tagRows.Keyed Writer.tagModel ∧ tagRow 1 5 ≠ tagRow 1 6 ∧
    ∃ cond, tagCatalog.condition Writer.tagModel (.object [("postId_tagId", .object [("postId", .int 1)])]) = .ok cond ∧
      tagRow 1 5 ∈ tagRows.select Writer.tagModel cond ∧ tagRow 1 6 ∈ tagRows.select Writer.tagModel cond := by
  refine ⟨rfl, ⟨by decide, by decide⟩, by decide, _, rfl, ?_, ?_⟩
  · exact List.mem_filter.mpr ⟨Database.mem_rows.mpr (by decide), by decide⟩
  · exact List.mem_filter.mpr ⟨Database.mem_rows.mpr (by decide), by decide⟩

end Key

end RecordGraph
