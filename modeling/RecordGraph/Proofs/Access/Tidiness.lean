import RecordGraph.Proofs.Access.Cleaning

/-!
# Tidy filters

Cleaning leaves a tidy filter, and a tidy filter stays as it is when it is cleaned again. It also
stays when it is freed of the conditions on a parent, if it puts none on it. The tidy filters are those
without a part that could be left out or unwrapped.
-/

namespace RecordGraph.Guard

/-- A filter of which cleaning leaves everything as it is. -/
inductive Tidy : Value → Prop
  | scalar {v} (hn : v ≠ .null) (hl : v.isList = false) (ho : v.isObject = false) : Tidy v
  | list {items} (hne : items ≠ []) (h : ∀ item ∈ items, Tidy item) : Tidy (.list items)
  | object {members} (hne : members ≠ []) (hu : unwrap members = .object members)
      (h : ∀ key v, (key, v) ∈ members → v ≠ .null → Tidy v) : Tidy (.object members)

theorem Tidy.item {items : List Value} {item : Value} (h : Tidy (.list items)) (hi : item ∈ items) :
    Tidy item := by
  cases h with
  | scalar _ hl => cases hl
  | list _ hitems => exact hitems item hi

theorem Tidy.ne_null {v : Value} (h : Tidy v) : v ≠ .null := by
  cases h with
  | scalar hn => exact hn
  | list | object => exact nofun

theorem Tidy.member {members : Object} (h : Tidy (.object members)) {key : String} {v : Value}
    (hm : (key, v) ∈ members) (hv : v ≠ .null) : Tidy v := by
  cases h with
  | scalar _ _ ho => cases ho
  | object _ _ hmembers => exact hmembers key v hm hv

/-! ## Cleaning -/

/-- A tree of tidy members is tidy once it is unwrapped. -/
theorem unwrap_tidy {tree : Object} (hne : tree ≠ [])
    (h : ∀ key v, (key, v) ∈ tree → v ≠ .null → Tidy v) : Tidy (unwrap tree) := by
  rcases unwrap_cases tree with hu | ⟨key, condition, rfl, _, hu⟩
  · rw [hu]
    exact .object hne hu h
  · rw [hu]
    exact (h key (.list [condition]) (by simp) nofun).item (by simp)

theorem clean_tidy {v : Value} : ∀ {w : Value}, clean v = some w → Tidy w := by
  induction v using Value.induct with
  | step v ih =>
      intro w h
      cases v with
      | null => simp [clean] at h
      | list items =>
          obtain ⟨hne, rfl⟩ := clean_list_iff.mp h
          refine .list hne fun item hi => ?_
          obtain ⟨u, hu, hc⟩ := mem_cleanItems.mp hi
          exact ih u (Value.sizeOf_item hu) hc
      | object members =>
          obtain ⟨hne, _, rfl⟩ := clean_object_iff.mp h
          have hmembers key u (hm : (key, u) ∈ cleanMembers members) (hu : u ≠ .null) : Tidy u := by
            obtain ⟨u', hu', ⟨_, rfl⟩ | hc⟩ := mem_cleanMembers hm
            · exact absurd rfl hu
            · exact ih u' (Value.sizeOf_member hu') hc
          exact unwrap_tidy hne hmembers
      | _ =>
          simp only [clean, Option.some.injEq] at h
          subst h
          exact .scalar nofun rfl rfl

theorem cleanItems_eq {items : List Value} (h : ∀ item ∈ items, clean item = some item) :
    cleanItems items = items := by
  induction items with
  | nil => rfl
  | cons v vs ih =>
      rw [cleanItems, h v (by simp), ih fun item hi => h item (by simp [hi])]

theorem cleanMembers_eq {members : Object}
    (h : ∀ key v, (key, v) ∈ members → v ≠ .null → clean v = some v) : cleanMembers members = members := by
  induction members with
  | nil => rfl
  | cons kv rest ih =>
      obtain ⟨key, v⟩ := kv
      have hrest := ih fun k u hm => h k u (by simp [hm])
      by_cases hv : v = .null
      · rw [hv, cleanMembers_null, hrest]
      · rw [cleanMembers_cons hv, h key v (by simp) hv, hrest]

theorem Tidy.clean_eq {v : Value} (h : Tidy v) : clean v = some v := by
  induction h with
  | scalar hn hl ho => exact clean_scalar hl ho hn
  | list hne _ ih => rw [clean_list_iff, cleanItems_eq ih]; exact ⟨hne, rfl⟩
  | object hne hu _ ih => rw [clean_object_iff, cleanMembers_eq ih, hu]; exact ⟨hne, nofun, rfl⟩

/-! ## Conditions on a parent -/

mutual

/-- Whether a filter puts no condition on the parent, at any level that is reached by logic, where
conditions stand in lists. -/
def standsAlone (parent : String) : Value → Bool
  | .list items => standAlone parent items
  | .object members => membersStandAlone parent members
  | _ => true

def standAlone (parent : String) : List Value → Bool
  | [] => true
  | v :: vs => standsAlone parent v && standAlone parent vs

def membersStandAlone (parent : String) : List (String × Value) → Bool
  | [] => true
  | (k, v) :: rest =>
    k != parent && (!isLogical k || v.isList && standsAlone parent v) && membersStandAlone parent rest

end

variable {parent : String}

theorem standAlone_iff {items : List Value} :
    standAlone parent items = true ↔ ∀ item ∈ items, standsAlone parent item = true := by
  induction items with
  | nil => simp [standAlone]
  | cons v vs ih => simp [standAlone, ih]

theorem membersStandAlone_iff {members : Object} : membersStandAlone parent members = true ↔
    ∀ key v, (key, v) ∈ members → key ≠ parent ∧
      (isLogical key = true → v.isList = true ∧ standsAlone parent v = true) := by
  induction members with
  | nil => simp [membersStandAlone]
  | cons kv rest ih =>
      obtain ⟨key, v⟩ := kv
      simp only [membersStandAlone, Bool.and_eq_true, bne_iff_ne, Bool.or_eq_true, Bool.not_eq_true', ih,
        List.mem_cons, Prod.mk.injEq]
      constructor
      · rintro ⟨⟨hk, hl⟩, hrest⟩ k u (⟨rfl, rfl⟩ | hm)
        · exact ⟨hk, fun hlog => hl.resolve_left (by simp [hlog])⟩
        · exact hrest k u hm
      · intro h
        obtain ⟨hk, hl⟩ := h key v (.inl ⟨rfl, rfl⟩)
        refine ⟨⟨hk, ?_⟩, fun k u hm => h k u (.inr hm)⟩
        cases hlog : isLogical key with
        | true => exact .inr (hl hlog)
        | false => exact .inl rfl

theorem withoutParentItems_eq {items : List Value}
    (h : ∀ item ∈ items, withoutParent parent item = some item) : withoutParentItems parent items = items := by
  induction items with
  | nil => rfl
  | cons v vs ih =>
      rw [withoutParentItems, h v (by simp), ih fun item hi => h item (by simp [hi])]

/-- Members stay if none is the parent's and the lists of conditions stay. -/
theorem withoutParentMembers_eq {members : Object}
    (h : ∀ key v, (key, v) ∈ members → key ≠ parent ∧
      (isLogical key = true → v.isList = true ∧ withoutParent parent v = some v)) :
    withoutParentMembers parent members = members := by
  induction members with
  | nil => rfl
  | cons kv rest ih =>
      obtain ⟨key, v⟩ := kv
      obtain ⟨hk, hl⟩ := h key v (by simp)
      have hrest := ih fun k u hm => h k u (by simp [hm])
      rw [withoutParentMembers, if_neg hk, hrest]
      cases hlog : isLogical key with
      | false => simp
      | true =>
          obtain ⟨hlist, hw⟩ := hl hlog
          cases v with
          | list items => simp [hw]
          | _ => cases hlist

theorem Tidy.withoutParent_eq {v : Value} (h : Tidy v) (hs : standsAlone parent v = true) :
    withoutParent parent v = some v := by
  induction h with
  | @scalar v hn hl ho =>
      cases v with
      | null => exact absurd rfl hn
      | list => cases hl
      | object => cases ho
      | _ => rfl
  | @list items hne _ ih =>
      rw [standsAlone, standAlone_iff] at hs
      rw [withoutParent, withoutParentItems_eq fun item hi => ih item hi (hs item hi)]
      cases items with
      | nil => exact absurd rfl hne
      | cons => rfl
  | @object members _ hu _ ih =>
      rw [standsAlone, membersStandAlone_iff] at hs
      have hkept : withoutParentMembers parent members = members := by
        refine withoutParentMembers_eq fun key v hm => ?_
        obtain ⟨hk, hl⟩ := hs key v hm
        refine ⟨hk, fun hlog => ?_⟩
        obtain ⟨hlist, halone⟩ := hl hlog
        have hv : v ≠ .null := by rintro rfl; cases hlist
        exact ⟨hlist, ih key v hm hv halone⟩
      rw [withoutParent, hkept, hu]

end RecordGraph.Guard

/-! ## Decisions -/

namespace RecordGraph

/-- The filter of a decision is empty or tidy. -/
theorem Decision.ofAnswer_tidy (answer : Value) :
    (ofAnswer answer).filter = [] ∨ Guard.Tidy (.object (ofAnswer answer).filter) := by
  unfold ofAnswer
  split
  · exact .inl rfl
  · split
    · rename_i hc
      exact .inr (Guard.clean_tidy hc)
    · exact .inl rfl
  · exact .inl rfl

theorem Rules.decide_tidy {rs : Rules} {action : Action} {entity : String} {user : User} {d : Decision}
    (hd : rs.decide action entity user = .ok d) : d.filter = [] ∨ Guard.Tidy (.object d.filter) := by
  cases user with
  | system => exact .inl (pure_ok_iff.mp hd ▸ rfl)
  | principal p =>
      simp only [decide] at hd
      split at hd
      · exact .inl (pure_ok_iff.mp hd ▸ rfl)
      · obtain ⟨answer, _, rfl⟩ := map_ok_iff.mp hd
        exact Decision.ofAnswer_tidy answer

end RecordGraph

/-! ## Normal filters

A filter is normal if no part of it, at any depth, is empty, is a list with a null in it or is one logical key over
one condition. Cleaning leaves a normal filter or nothing at all, and leaves a normal filter as it is. -/

namespace RecordGraph

/-- The parts of a value: the value itself, and the parts of its items and members. -/
inductive Value.Within : Value → Value → Prop
  | self {v} : Within v v
  | item {part item items} (hi : item ∈ items) (h : Within part item) : Within part (.list items)
  | member {part key v members} (hm : (key, v) ∈ members) (h : Within part v) : Within part (.object members)

namespace Guard

/-- A part of a filter has nothing in it that could be left out or unwrapped. -/
structure Terse (part : Value) : Prop where
  list_filled : part ≠ .list []
  object_filled : part ≠ .object []
  without_null : ∀ items, part = .list items → .null ∉ items
  unwrapped : ∀ key condition, key = "AND" ∨ key = "OR" → part ≠ .object [(key, .list [condition])]

/-- A filter whose parts are all terse. -/
def Normal (v : Value) : Prop := v ≠ .null ∧ ∀ part : Value, part.Within v → Terse part

variable {v part : Value}

theorem isLogical_iff {key : String} : isLogical key = true ↔ key = "AND" ∨ key = "OR" := by
  simp [isLogical]

theorem terse_scalar (hl : v.isList = false) (ho : v.isObject = false) : Terse v where
  list_filled := by rintro rfl; cases hl
  object_filled := by rintro rfl; cases ho
  without_null items h := by subst h; cases hl
  unwrapped key condition _ := by rintro rfl; cases ho

theorem Tidy.terse (h : Tidy v) : Terse v := by
  cases h with
  | scalar _ hl ho => exact terse_scalar hl ho
  | list hne hitems =>
      refine ⟨fun he => hne (Value.list.inj he), nofun, fun items he hnull => ?_, nofun⟩
      cases he
      exact (hitems _ hnull).ne_null rfl
  | @object members hne hu _ =>
      refine ⟨nofun, fun he => hne (Value.object.inj he), nofun, fun key condition hkey he => ?_⟩
      obtain rfl := Value.object.inj he
      -- what is unwrapped is smaller than the tree that it is found in
      have hsize : sizeOf (unwrap [(key, .list [condition])]) < sizeOf (Value.object [(key, .list [condition])]) := by
        simp only [unwrap, isLogical_iff.mpr hkey, if_true]
        exact Nat.lt_trans (Value.sizeOf_item (List.mem_singleton.mpr rfl))
          (Value.sizeOf_member (List.mem_singleton.mpr rfl))
      rw [hu] at hsize
      exact absurd hsize (Nat.lt_irrefl _)

/-- The parts of a tidy filter are tidy, but for the nulls that columns are compared with. -/
theorem Tidy.within (hp : part.Within v) : Tidy v → part = .null ∨ Tidy part := by
  induction hp with
  | self => exact .inr
  | item hi _ ih => exact fun h => ih (h.item hi)
  | @member key v _ hm hp ih =>
      intro h
      by_cases hv : v = .null
      · subst hv
        cases hp with
        | self => exact .inl rfl
      · exact ih (h.member hm hv)

theorem Normal.item {items : List Value} {item : Value} (h : Normal (.list items)) (hi : item ∈ items) :
    Normal item :=
  ⟨fun hnull => (h.2 _ .self).without_null items rfl (hnull ▸ hi), fun part hp => h.2 part (.item hi hp)⟩

theorem Normal.member {members : Object} {key : String} (h : Normal (.object members)) (hm : (key, v) ∈ members)
    (hv : v ≠ .null) : Normal v :=
  ⟨hv, fun part hp => h.2 part (.member hm hp)⟩

theorem Normal.tidy : Normal v → Tidy v := by
  induction v using Value.induct with
  | step v ih =>
      intro h
      cases v with
      | null => exact absurd rfl h.1
      | list items =>
          refine .list (fun he => (h.2 _ .self).list_filled (congrArg _ he)) fun item hi => ?_
          exact ih item (Value.sizeOf_item hi) (h.item hi)
      | object members =>
          refine .object (fun he => (h.2 _ .self).object_filled (congrArg _ he)) ?_ fun key v hm hv => ?_
          · rcases unwrap_cases members with hu | ⟨key, condition, rfl, hkey, _⟩
            · exact hu
            · exact absurd rfl ((h.2 _ .self).unwrapped key condition (isLogical_iff.mp hkey))
          · exact ih v (Value.sizeOf_member hm) (h.member hm hv)
      | _ => exact .scalar h.1 rfl rfl

theorem tidy_iff_normal : Tidy v ↔ Normal v := by
  refine ⟨fun h => ⟨h.ne_null, fun part hp => ?_⟩, Normal.tidy⟩
  rcases h.within hp with rfl | ht
  · exact terse_scalar rfl rfl
  · exact ht.terse

/-- What cleaning leaves of a filter is normal and is not changed by cleaning it again. A filter that is normal is left
as it is. -/
theorem cleaned_normal (v : Value) :
    (clean v).bind clean = clean v ∧ (∀ w, clean v = some w → Normal w) ∧ (Normal v → clean v = some v) := by
  refine ⟨?_, fun w hw => tidy_iff_normal.mp (clean_tidy hw), fun h => (tidy_iff_normal.mpr h).clean_eq⟩
  cases hw : clean v with
  | none => rfl
  | some w => exact (clean_tidy hw).clean_eq

/-- Conditions under logical keys, some of which say nothing. -/
def wordyFilter : Value :=
  .object [("AND", .list [.null, .object [("OR", .list [.object [("deletedAt", .null)], .object [], .list [.null]])]])]

/-- One comparison with null is left of the filter, two logical keys further in. -/
theorem wordyFilter_normal :
    clean wordyFilter = some (.object [("deletedAt", .null)]) ∧ Normal (.object [("deletedAt", .null)]) ∧
    clean (.object [("deletedAt", .null)]) = some (.object [("deletedAt", .null)]) := by
  have hclean : clean wordyFilter = some (.object [("deletedAt", .null)]) := rfl
  have hnormal := (cleaned_normal wordyFilter).2.1 _ hclean
  exact ⟨hclean, hnormal, (cleaned_normal _).2.2 hnormal⟩

end Guard

end RecordGraph
