import RecordGraph.Proofs.Relational.Session.Linking

/-!
# Changing a sound session

Payloads that a sound session can be changed by: each of their members is a column with a value that
can be stored, or a relation with operations of the shape that the kind of the relation takes. Such a
payload is set on an object, or refused by the storage.
-/

namespace RecordGraph

theorem Value.depth_of_item {v : Value} {items : List Value} (h : v ∈ items) :
    v.depth < (Value.list items).depth := by
  rw [depth, Nat.lt_succ_iff]
  induction items with
  | nil => cases h
  | cons item items ih =>
      rw [listDepth]
      rcases List.mem_cons.mp h with rfl | h
      · exact le_max_left _ _
      · exact le_max_of_le_right (ih h)

theorem Value.depth_of_member {key : String} {v : Value} {o : Object} (h : (key, v) ∈ o) :
    v.depth < (Value.object o).depth := by
  rw [depth, Nat.lt_succ_iff]
  induction o with
  | nil => cases h
  | cons kv rest ih =>
      rw [memberDepth]
      rcases List.mem_cons.mp h with rfl | h
      · exact le_max_left _ _
      · exact le_max_of_le_right (ih h)

theorem Value.depth_of_get {key : String} {o : Object} : (Object.get o key).depth < (Value.object o).depth := by
  by_cases h : Object.get o key = .null
  · rw [h]
    exact Nat.succ_pos _
  · exact depth_of_member (Object.mem_of_get_ne_null h)

namespace Work

section
variable (c : Catalog) (m : Model)

/-- A payload that any object of a model can be given. -/
def Sets (body : Value) : Prop :=
  ∀ {levels s ref}, body.depth ≤ levels → s.Sound c → s.Has ref m →
    Runs c s (setWithin c levels ref body) fun _ _ => True

/-- A value that a link of any object of a model can be given. -/
def Changes (l : Link) (v : Value) : Prop :=
  ∀ {levels s ref}, v.depth ≤ levels → s.Sound c → s.Has ref m →
    Runs c s (changeRelation c (setWithin c levels) ref m l v) fun _ _ => True

/-- An item of an operation on the rows of a list. -/
def ListChange (op : String) (item : Value) : Prop :=
  match op with
  | "create" => Sets c m item
  | "connect" => c.Answers m item
  | "connectOrCreate" => ∃ filter body, item = .object [("where", filter), ("create", body)] ∧
      c.Answers m filter ∧ Sets c m body
  | "upsert" => ∃ filter body changes,
      item = .object [("where", filter), ("create", body), ("update", changes)] ∧
      c.Answers m filter ∧ Sets c m body ∧ Sets c m changes
  | "update" => ∃ filter changes, item = .object [("where", filter), ("data", changes)] ∧
      c.Answers m filter ∧ Sets c m changes
  | _ => False

/-- An operation on a single row. -/
def RecordChange (op : String) (v : Value) : Prop :=
  match op with
  | "create" => Sets c m v
  | "connect" => c.Answers m v
  | "upsert" => ∃ item : Object, v = .object item ∧ Sets c m (item.get "create") ∧ Sets c m (item.get "update")
  | "disconnect" => True
  | _ => False

end

variable {c : Catalog} {s : Session} {ref : Ref} {m target : Model} {l : Link} {levels : Nat} {v : Value}

/-! ## Payloads -/

theorem sets_null : Sets c m .null := by
  intro levels s ref _ hs _
  cases levels with
  | zero => exact runs_pure hs trivial
  | succ levels => exact runs_pure hs trivial

def MemberFits (c : Catalog) (m : Model) (key : String) (v : Value) : Prop :=
  (∀ l, m.link? key = some l → Changes c m l v) ∧
    ∀ column, m.link? key = none → m.column? key = some column → column.Takes v

theorem sets_of_members {members : Object} (h : ∀ kv ∈ members, MemberFits c m kv.1 kv.2) :
    Sets c m (.object members) := by
  intro levels s ref hdepth hs hr
  cases levels with
  | zero => exact absurd hdepth (Nat.not_succ_le_zero _)
  | succ levels =>
      rw [setWithin]
      refine (runs_object hs hr).bind fun t s' _ _ ht => ?_
      obtain ⟨rfl, -, rfl⟩ := ht
      refine Runs.bind (runs_forIn hs fun (key, v) hkv s hs hg => ?_) fun _ _ ht _ _ => runs_pure ht trivial
      -- a member is a level below its payload, so the levels that are left are enough for it
      have hv : v.depth ≤ levels := Nat.le_of_lt_succ (Nat.lt_of_lt_of_le (Value.depth_of_member hkv) hdepth)
      obtain ⟨hlink, hcolumn⟩ := h _ hkv
      dsimp only
      split
      next l hl => exact Runs.round (hlink l hl hv hs (hr.mono hg))
      next column hl hcol =>
        refine (runs_lift hs (hcolumn column hl hcol).handed).bind fun w s' _ _ hw => ?_
        obtain ⟨hw, rfl⟩ := hw
        exact Runs.round (runs_setValue hs hw)
      next => exact runs_throw trivial

theorem runs_build {body : Value} (hs : s.Sound c) (ht : c.Has target) (hdepth : body.depth ≤ levels)
    (hb : Sets c target body) :
    Runs c s (build (setWithin c levels) target body) fun ref s' => s'.Has ref target := by
  have hnew : Tracked.Sound c s { model := target } :=
    ⟨ht, ⟨by simp, by simp⟩, fun kv hkv => absurd hkv List.not_mem_nil, fun _ _ _ he => by cases he⟩
  refine (runs_track hs hnew).bind fun ref s hs _ hr => ?_
  exact (hb hdepth hs hr).bind fun _ s' hs' hg _ => runs_pure hs' (hr.mono hg)

/-! ## List relations -/

theorem depth_of_itemsOf {item : Value} (h : item ∈ itemsOf v) : item.depth ≤ v.depth := by
  unfold itemsOf at h
  split at h
  next => exact (Value.depth_of_item h).le
  next => exact (List.mem_singleton.mp h ▸ le_rfl)

section
variable {k : Collection} (hc : c.Sound) (hk : k.Of ref l) (hr : s.Has ref m)
  (hl : l ∈ m.links) (hlist : l.isList = true) (hnamed : c.named l.target = .ok target)
include hc hk hr hl hlist hnamed

theorem runs_addBuilt {body : Value} (hs : s.Sound c) (hdepth : body.depth ≤ levels) (hb : Sets c target body) :
    Runs c s (do k.add c (← build (setWithin c levels) target body)) fun k' _ => k'.Of ref l := by
  have htarget : c.Has target := ((Catalog.named_ok_iff hc.toWellFormed).mp hnamed).1
  refine (runs_build hs htarget hdepth hb).bind fun r s hs hg hbuilt => ?_
  exact runs_add hc hs hk (hr.mono hg) hl hlist hnamed hbuilt

theorem runs_changeMany {op : String} (hs : s.Sound c) (hdepth : v.depth ≤ levels) (hne : itemsOf v ≠ [])
    (h : ∀ item ∈ itemsOf v, ListChange c target op item) :
    Runs c s (changeMany c (setWithin c levels) m target k op v) fun k' _ => k'.Of ref l := by
  have htarget : c.Has target := ((Catalog.named_ok_iff hc.toWellFormed).mp hnamed).1
  have hitem : ∀ {item}, item ∈ itemsOf v → item.depth ≤ levels := fun hin => (depth_of_itemsOf hin).trans hdepth
  have hmember : ∀ key {w} {o : Object}, .object o ∈ itemsOf v → (key, w) ∈ o → w.depth ≤ levels :=
    fun _ _ _ hin hm => (Value.depth_of_member hm).le.trans (hitem hin)
  -- which operation it is shows in its items, of which there is one
  obtain ⟨first, hfirst⟩ := List.exists_mem_of_ne_nil _ hne
  have hop := h first hfirst
  unfold ListChange at hop
  split at hop
  next =>
    refine runs_foldlM hs hk fun item hin k s hs hg hk => ?_
    exact runs_addBuilt hc hk (hr.mono hg) hl hlist hnamed hs (hitem hin) (h item hin)
  next =>
    refine runs_foldlM hs hk fun item hin k s hs hg hk => ?_
    refine (runs_require hc hs htarget (h item hin)).bind fun r s hs hg' hfound => ?_
    exact runs_add hc hs hk ((hr.mono hg).mono hg') hl hlist hnamed hfound
  next =>
    refine runs_foldlM hs hk fun item hin k s hs hg hk => ?_
    obtain ⟨filter, body, rfl, hf, hb⟩ := h item hin
    have hbody : body.depth ≤ levels := hmember "create" hin (by simp)
    refine Runs.given (a := filter) rfl ?_
    refine (runs_findOne hc hs htarget hf).bind fun found s hs hg' hfound => ?_
    cases found with
    | some r => exact runs_add hc hs hk ((hr.mono hg).mono hg') hl hlist hnamed (hfound r rfl)
    | none =>
        refine Runs.given (a := body) rfl ?_
        exact runs_addBuilt hc hk ((hr.mono hg).mono hg') hl hlist hnamed hs hbody hb
  next =>
    refine runs_foldlM hs hk fun item hin k s hs hg hk => ?_
    obtain ⟨filter, body, changes, rfl, hf, hb, hch⟩ := h item hin
    have hbody : body.depth ≤ levels := hmember "create" hin (by simp)
    have hchanges : changes.depth ≤ levels := hmember "update" hin (by simp)
    refine Runs.given (a := filter) rfl ?_
    refine (runs_findOne hc hs htarget hf).bind fun found s hs hg' hfound => ?_
    cases found with
    | some r =>
        refine Runs.given (a := changes) rfl ?_
        refine (hch hchanges hs (hfound r rfl)).bind fun _ s hs hg'' _ => ?_
        exact runs_add hc hs hk (((hr.mono hg).mono hg').mono hg'') hl hlist hnamed ((hfound r rfl).mono hg'')
    | none =>
        refine Runs.given (a := body) rfl ?_
        exact runs_addBuilt hc hk ((hr.mono hg).mono hg') hl hlist hnamed hs hbody hb
  next =>
    refine Runs.bind (runs_forIn hs fun item hin s hs hg => ?_) fun _ _ ht _ _ => runs_pure ht hk
    obtain ⟨filter, changes, rfl, hf, hch⟩ := h item hin
    have hchanges : changes.depth ≤ levels := hmember "data" hin (by simp)
    refine Runs.given (a := filter) rfl ?_
    refine (runs_findOne hc hs htarget hf).bind fun found s hs hg' hfound => ?_
    cases found with
    | some r =>
        refine Runs.given (a := changes) rfl ?_
        exact Runs.round (hch hchanges hs (hfound r rfl))
    | none => exact runs_throw trivial
  next => exact hop.elim

end

/-! ## Single records -/

theorem runs_changeOne {op : String} (hc : c.Sound) (hs : s.Sound c) (hr : s.Has ref m) (hl : l ∈ m.links)
    (hlist : l.isList = false) (hnamed : c.named l.target = .ok target) (hdepth : v.depth ≤ levels)
    (h : RecordChange c target op v) :
    Runs c s (changeOne c (setWithin c levels) ref m target l op v) fun _ _ => True := by
  have htarget : c.Has target := ((Catalog.named_ok_iff hc.toWellFormed).mp hnamed).1
  have hlink : ∀ {r s}, s.Sound c → s.Has ref m → s.Has r target →
      Runs c s (linkOne ref l (some r)) fun _ _ => True := fun hs hr hfound =>
    runs_linkOne hc hs hr hl hnamed hlist (fun o ho => Option.some.inj ho ▸ hfound) nofun
  have hbuild : ∀ {body s}, s.Sound c → s.Has ref m → body.depth ≤ levels → Sets c target body →
      Runs c s (do linkOne ref l (some (← build (setWithin c levels) target body))) fun _ _ => True :=
    fun hs hr hdepth hb => (runs_build hs htarget hdepth hb).bind fun r s hs hg hbuilt =>
      hlink hs (hr.mono hg) hbuilt
  have hcurrent : ∀ {s}, s.Sound c → s.Has ref m → Runs c s (List.head? <$> endsOf c ref l)
      fun found s' => ∀ r, found = some r → s'.Has r target := by
    refine fun hs hr => Runs.map ((runs_endsOf hc hs hr hl).mono fun refs s _ _ hrefs r hr => ?_)
    exact hrefs.1 target hnamed r (List.mem_of_head? hr)
  unfold RecordChange at h
  unfold changeOne
  split at h
  next => exact hbuild hs hr hdepth h
  next =>
    exact (runs_require hc hs htarget h).bind fun r s hs hg hfound => hlink hs (hr.mono hg) hfound
  next =>
    obtain ⟨item, rfl, hb, hch⟩ := h
    have hbody : (item.get "create").depth ≤ levels := Value.depth_of_get.le.trans hdepth
    have hchanges : (item.get "update").depth ≤ levels := Value.depth_of_get.le.trans hdepth
    refine (hcurrent hs hr).bind fun found s hs hg hfound => ?_
    cases found with
    | some r =>
        refine Runs.given (a := item.get "update") rfl ?_
        exact hch hchanges hs (hfound r rfl)
    | none =>
        refine Runs.given (a := item.get "create") rfl ?_
        split
        · exact hbuild hs (hr.mono hg) hbody hb
        · exact runs_pure hs trivial
  next =>
    cases hv : v.isPresent with
    | false => exact runs_pure hs trivial
    | true =>
        refine (runs_lift hs (ensureOptional_handed hnamed)).bind fun _ s' _ _ hloose => ?_
        obtain ⟨hloose, rfl⟩ := hloose
        refine (hcurrent hs hr).bind fun _ s hs hg _ => ?_
        exact runs_linkOne hc hs (hr.mono hg) hl hnamed hlist nofun fun _ => hloose
  next => exact h.elim

/-! ## Relations -/

theorem changes_flat (h : v.isPresent = true → v.isObject = false) : Changes c m l v := by
  intro levels s ref _ hs _
  unfold changeRelation
  split
  next => exact runs_pure hs trivial
  next hpresent =>
    split
    next => cases h (by simpa using hpresent)
    next => exact runs_throw trivial

theorem changes_many {ops : Object} (hc : c.Sound) (hl : l ∈ m.links) (hlist : l.isList = true)
    (hnamed : c.named l.target = .ok target)
    (h : ∀ op x, (op, x) ∈ ops → itemsOf x ≠ [] ∧ ∀ item ∈ itemsOf x, ListChange c target op item) :
    Changes c m l (.object ops) := by
  intro levels s ref hdepth hs hr
  unfold changeRelation
  split
  · exact runs_pure hs trivial
  · refine Runs.given hnamed ?_
    refine (runs_endsOf hc hs hr hl).bind fun _ s hs hg _ => ?_
    refine Runs.bind (Q := fun k _ => Collection.Of k ref l) (runs_foldlM hs ⟨rfl, rfl, rfl⟩ ?_)
      fun _ _ ht _ _ => runs_pure ht trivial
    rintro ⟨op, x⟩ hin k s hs hg' hk
    obtain ⟨hne, hitems⟩ := h op x hin
    exact runs_changeMany hc hk ((hr.mono hg).mono hg') hl hlist hnamed hs
      ((Value.depth_of_member hin).le.trans hdepth) hne hitems

theorem changes_record {ops : Object} (hc : c.Sound) (hl : l ∈ m.links) (hlist : l.isList = false)
    (hnamed : c.named l.target = .ok target) (h : ∀ op x, (op, x) ∈ ops → RecordChange c target op x) :
    Changes c m l (.object ops) := by
  intro levels s ref hdepth hs hr
  unfold changeRelation
  split
  · exact runs_pure hs trivial
  · refine Runs.given hnamed ?_
    rw [if_neg (Bool.eq_false_iff.mp hlist)]
    refine Runs.bind (runs_forIn hs ?_) fun _ _ ht _ _ => runs_pure ht trivial
    rintro ⟨op, x⟩ hin s hs hg
    exact Runs.round (runs_changeOne hc hs (hr.mono hg) hl hlist hnamed
      ((Value.depth_of_member hin).le.trans hdepth) (h op x hin))

end Work

end RecordGraph
