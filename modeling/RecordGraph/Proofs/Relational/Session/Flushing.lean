import RecordGraph.Proofs.Relational.Session.Invariant

/-!
# Flushing sound sessions

A pass over a sound session leaves it sound, or ends with a failure of the storage: what was set can be
bound, every key that is to be held is there, and no key is emptied that a row cannot do without.
-/

namespace RecordGraph

namespace Catalog

variable {c : Catalog} {m : Model}

theorem sortModels_subset {all rest : List Model} {n : Nat} : sortModels all n rest ⊆ rest := by
  induction n generalizing rest with
  | zero => exact List.Subset.refl rest
  | succ n ih =>
      rw [sortModels]
      split
      · exact List.Subset.refl rest
      · exact List.append_subset.mpr ⟨List.filter_subset_self _, List.Subset.trans ih (List.filter_subset_self _)⟩

theorem has_of_inOrder (h : m ∈ c.inOrder) : c.Has m := by
  obtain ⟨⟨entity, _⟩, hm, rfl⟩ := List.mem_map.mp (sortModels_subset h)
  exact ⟨entity, hm⟩

end Catalog

theorem Ends.mem_added {e : Ends} {ref : Ref} (h : ref ∈ e.added) : ref ∈ e.now :=
  (List.mem_filter.mp h).1

theorem Ends.mem_removed {e : Ends} {ref : Ref} (h : ref ∈ e.removed) :
    ref ∈ e.before.getD [] ∧ ref ∉ e.now := by
  obtain ⟨hbefore, hnow⟩ := List.mem_filter.mp h
  exact ⟨hbefore, by simpa using hnow⟩

namespace Work

theorem mem_heldLinks {m target : Model} {l : Link} {column : String} (h : (l, column) ∈ heldLinks m target) :
    l ∈ m.links ∧ (∃ many, l.kind = .heldBy column many) ∧ l.target = target.name := by
  obtain ⟨l', hl, hfound⟩ := List.mem_filterMap.mp h
  split at hfound
  next column' many hkind =>
    split at hfound
    next htarget =>
      cases hfound
      exact ⟨hl, ⟨many, hkind⟩, by simpa using htarget⟩
    next => cases hfound
  next => cases hfound

variable {c : Catalog} {s : Session} {ref : Ref} {m target : Model} {l : Link}

/-- No object of a sound session is to be removed. -/
theorem runs_doomed (hs : s.Sound c) {test : Tracked → Bool} (h : ∀ t, test t = true → t.stage = .doomed) :
    Runs c s (refsWhere test) fun refs s' => s' = s ∧ refs = [] := by
  refine (runs_refsWhere hs test).mono fun refs s' _ _ hrefs => ⟨hrefs.1, ?_⟩
  refine List.eq_nil_iff_forall_not_mem.mpr fun ref hr => ?_
  obtain ⟨t, ht, htest⟩ := hrefs.2 ref hr
  exact (hs.object ht).staged.1 (h t htest)

theorem runs_refsOf (hc : c.Sound) (hs : s.Sound c) (hm : c.Has m) (test : Tracked → Bool) :
    Runs c s (refsWhere fun t => test t && t.model.name == m.name) fun refs s' =>
      s' = s ∧ ∀ ref ∈ refs, s.Has ref m := by
  refine (runs_refsWhere hs _).mono fun refs s' _ _ hrefs => ⟨hrefs.1, fun ref hr => ?_⟩
  obtain ⟨t, ht, htest⟩ := hrefs.2 ref hr
  simp only [Bool.and_eq_true, beq_iff_eq] at htest
  exact ⟨t, ht, hc.unique (hs.object ht).model hm htest.2⟩

/-! ## Keys -/

/-- What an object needs to hold the key of another, or none. -/
def Holdable (s : Session) (m : Model) (column keyColumn : String) (other : Option Ref) : Prop :=
  ∃ holder, m.column? column = some holder ∧
    match other with
    | some o => ∃ owner, s.Has o owner ∧ (owner.column? keyColumn).isSome = true
    | none => holder.isKey = false

theorem Holdable.mono {s' : Session} {column keyColumn : String} {other : Option Ref}
    (h : Holdable s m column keyColumn other) (hg : s.Grows s') : Holdable s' m column keyColumn other := by
  obtain ⟨holder, hholder, hother⟩ := h
  refine ⟨holder, hholder, ?_⟩
  cases other with
  | none => exact hother
  | some o =>
      obtain ⟨owner, howner, hkey⟩ := hother
      exact ⟨owner, howner.mono hg, hkey⟩

theorem runs_holdKey {column keyColumn : String} {other : Option Ref} (hs : s.Sound c) (hr : s.Has ref m)
    (h : Holdable s m column keyColumn other) :
    Runs c s (holdKey ref column keyColumn other) fun _ _ => True := by
  obtain ⟨holder, hholder, hother⟩ := h
  refine (runs_object hs hr).bind fun t s' _ _ ht => ?_
  obtain ⟨rfl, -, hmodel⟩ := ht
  rw [hmodel, hholder]
  cases other with
  | some o =>
      obtain ⟨owner, howner, hkey⟩ := hother
      obtain ⟨key, hkey⟩ := Option.isSome_iff_exists.mp hkey
      refine (runs_object hs howner).bind fun t s' _ _ ht => ?_
      obtain ⟨rfl, -, hmodel⟩ := ht
      rw [hmodel, hkey]
      refine (runs_valueOf hs howner key).bind fun v s' _ _ hv => ?_
      obtain ⟨rfl, hv⟩ := hv
      exact runs_setValue hs hv
  | none =>
      have hfree : holder.isKey = false := hother
      refine (runs_valueOf hs hr holder).bind fun v s' _ _ hv => ?_
      obtain ⟨rfl, -⟩ := hv
      have hnull : Value.null.Fits := trivial
      rw [hfree]
      exact runs_setValue hs hnull

/-- Every end that is there now can be held by what holds keys of the link. -/
theorem Ends.holdable_now {e : Ends} {column : String} (hc : c.Sound) (hm : c.Has m)
    (hl : l ∈ m.links) (hk : l.kind = .holds column) (he : e.Sound c s m l) (hchanged : e.changed = true) :
    Holdable s m column l.keyColumn e.now.head? := by
  obtain ⟨target, hnamed, _⟩ := hc.target_of hm hl
  have hjoins := hc.joins hm hl hnamed
  simp only [Link.Joins, hk] at hjoins
  obtain ⟨holder, hholder⟩ := Option.isSome_iff_exists.mp hjoins.1
  refine ⟨holder, hholder, ?_⟩
  cases hnow : e.now with
  | cons o rest => exact ⟨target, he.now target hnamed o (by rw [hnow]; exact List.mem_cons_self), hjoins.2⟩
  | nil =>
      rcases he.uncut target hnamed with hloose | huncut
      · simp only [Link.Loose, hk] at hloose
        exact hloose holder hholder
      · simp only [hk] at huncut
        simp [Ends.changed, huncut hnow, hnow] at hchanged

theorem runs_holdOwn (hc : c.Sound) (hs : s.Sound c) (hm : c.Has m) :
    Runs c s (holdOwn m) fun _ _ => True := by
  refine (runs_refsOf hc hs hm _).bind fun refs s' _ _ hrefs => ?_
  obtain ⟨rfl, hrefs⟩ := hrefs
  refine Runs.bind (runs_forIn hs fun ref hr s hs hg => ?_) fun _ _ ht _ _ => runs_pure ht trivial
  refine (runs_object hs ((hrefs ref hr).mono hg)).bind fun t s' _ _ ht => ?_
  obtain ⟨rfl, ht, rfl⟩ := ht
  have htracked := hs.object ht
  refine Runs.round (runs_forIn hs fun l hl s hs hg' => ?_)
  split
  next column e hkind hlook =>
    split
    next hchanged =>
      have hends := (htracked.ends l hl e hlook).mono hg'
      exact Runs.round (runs_holdKey hs ((hrefs ref hr).mono (hg.trans hg'))
        (Ends.holdable_now hc hm hl hkind hends hchanged))
    next => exact runs_next hs
  next => exact runs_next hs

/-- An end that came or went can hold the key of the owner, or lose it. -/
theorem Ends.holdable_held {e : Ends} {column : String} {many : Bool} {owner : Ref} (hc : c.Sound)
    (hm : c.Has m) (hl : l ∈ m.links) (hk : l.kind = .heldBy column many) (hnamed : c.named l.target = .ok target)
    (he : e.Sound c s m l) (ho : s.Has owner m) (child : Ref) :
    (child ∈ e.added → s.Has child target ∧ Holdable s target column l.keyColumn (some owner)) ∧
      (child ∈ e.removed → s.Has child target ∧ Holdable s target column l.keyColumn none) := by
  have hjoins := hc.joins hm hl hnamed
  simp only [Link.Joins, hk] at hjoins
  obtain ⟨holder, hholder⟩ := Option.isSome_iff_exists.mp hjoins.1
  constructor
  · intro hchild
    exact ⟨he.now target hnamed child (Ends.mem_added hchild), holder, hholder, m, ho, hjoins.2.1⟩
  · intro hchild
    obtain ⟨hbefore, hnow⟩ := Ends.mem_removed hchild
    refine ⟨he.before target hnamed child hbefore, holder, hholder, ?_⟩
    rcases he.uncut target hnamed with hloose | huncut
    · simp only [Link.Loose, hk] at hloose
      exact hloose holder hholder
    · simp only [hk] at huncut
      exact absurd (huncut hbefore) hnow

theorem runs_heldEnds {ends : List Ref} {column keyColumn : String} {other : Option Ref} (hs : s.Sound c)
    (h : ∀ child ∈ ends, s.Has child target ∧ Holdable s target column keyColumn other) :
    Runs c s
      (forIn ends PUnit.unit fun child _ => do
        if (← object child).isAttached then
          holdKey child column keyColumn other
          pure (ForInStep.yield PUnit.unit)
        else pure (ForInStep.yield PUnit.unit))
      fun _ _ => True := by
  refine runs_forIn hs fun child hchild s' hs' hg => ?_
  obtain ⟨hhas, hholdable⟩ := h child hchild
  refine (runs_object hs' (hhas.mono hg)).bind fun t s'' _ _ ht => ?_
  obtain ⟨rfl, -, -⟩ := ht
  split
  · exact Runs.round (runs_holdKey hs' (hhas.mono hg) (hholdable.mono hg))
  · exact runs_next hs'

theorem runs_holdOthers (hc : c.Sound) (hs : s.Sound c) (hm : c.Has m) :
    Runs c s (holdOthers m) fun _ _ => True := by
  refine (runs_refsWhere hs _).bind fun refs s' _ _ hrefs => ?_
  obtain ⟨rfl, hrefs⟩ := hrefs
  refine Runs.bind (runs_forIn hs fun owner hr s hs hg => ?_) fun _ _ ht _ _ => runs_pure ht trivial
  obtain ⟨t, ht, -⟩ := hrefs owner hr
  have hown := (Session.has_of_object ht).mono hg
  refine (runs_object hs hown).bind fun t' s' _ _ ht => ?_
  obtain ⟨rfl, ht, hmodel⟩ := ht
  rw [← hmodel] at hown
  have htracked := hs.object ht
  refine Runs.round (runs_forIn hs fun (l, column) hheld s hs hg' => ?_)
  obtain ⟨hl, ⟨many, hk⟩, htarget⟩ := mem_heldLinks hheld
  have hnamed : c.named l.target = .ok m := htarget ▸ hc.named hm
  have hhas := (hs.model (hown.mono hg'))
  dsimp only
  split
  next => exact runs_next hs
  next e hlook =>
    have hends := (htracked.ends l hl e hlook).mono hg'
    have hholdable := Ends.holdable_held hc hhas hl hk hnamed hends (hown.mono hg')
    refine (runs_heldEnds hs fun child h => (hholdable child).1 h).bind fun _ s' hs' hg'' _ => ?_
    have hgone : ∀ child ∈ e.removed, s'.Has child m ∧ Holdable s' m column l.keyColumn none := by
      intro child h
      have hgone := (hholdable child).2 h
      exact ⟨hgone.1.mono hg'', hgone.2.mono hg''⟩
    exact (runs_heldEnds hs' hgone).bind fun _ s'' hs'' _ _ => runs_next hs''

/-! ## Rows -/

theorem runs_updateRow (hs : s.Sound c) (hr : s.Has ref m) : Runs c s (updateRow ref) fun _ _ => True := by
  refine (runs_object hs hr).bind fun t s' _ _ ht => ?_
  obtain ⟨rfl, ht, -⟩ := ht
  refine Runs.get ?_
  split
  next => exact runs_pure hs trivial
  next row hrow =>
    dsimp only
    split
    · exact runs_pure hs trivial
    · have hchanges : ∀ kv ∈ differing t.model row t.values, Value.Fits kv.2 := fun kv hkv =>
        (hs.object ht).values kv (List.mem_filter.mp hkv).1
      refine (runs_lift (P := Row.Fits) hs (Handed.foldlM (hs.db.row? hrow) fun column _ row' hrow' => ?_)).bind
        fun row' s' _ _ hrow' => ?_
      · split
        next v hget =>
          exact (ColumnKind.kept_handed (hchanges _ (Object.mem_of_get? hget))).bind fun cell hcell =>
            hrow'.set hcell
        next => exact hrow'
      · obtain ⟨hrow', rfl⟩ := hrow'
        refine (runs_lift hs (Database.replace_handed hs.db hrow')).bind fun db s' _ _ hdb => ?_
        obtain ⟨hdb, rfl⟩ := hdb
        refine (runs_set (hs.setDb hdb) Session.grows_same).bind fun _ s' hs' hg' _ => ?_
        have hkey : ∀ t, s'.objects[ref]? = some t → t.Sound c s' →
            Tracked.Sound c s' { t with key := row'.key t.model } :=
          fun t _ ht => ⟨ht.model, ht.staged, ht.values, ht.ends⟩
        refine Runs.mono (runs_modifyObject hs' ?_ hkey) fun _ _ _ _ _ => trivial
        exact fun _ => rfl

theorem newRow_handed {t : Tracked} (hc : c.Sound) (ht : t.Sound c s) : Handed Row.Fits (newRow t) := by
  obtain ⟨entity, hm⟩ := ht.model
  refine Handed.mapM fun column hcolumn => ?_
  refine (ColumnKind.kept_handed ?_).bind fun cell hcell => hcell
  split
  next =>
    cases hdefault : column.default? with
    | none => trivial
    | some v => exact hc.defaults _ hm column hcolumn v hdefault
  next v hne =>
    exact ht.values _ (Object.mem_of_get_ne_null hne)

theorem runs_insertRow (hs : s.Sound c) (row : Row) (hrow : row.Fits) :
    Runs c s
      (do
        let s ← get
        let (key, db) ← s.db.insert m row
        set { s with db }
        modifyObject ref fun t => { t with stage := .stored, key, values := [] }
        pure (ForInStep.yield PUnit.unit))
      fun step _ => step = .yield ⟨⟩ := by
  refine Runs.get ?_
  refine (runs_lift hs (Database.insert_handed hs.db hrow)).bind fun (key, db) s' _ _ hdb => ?_
  obtain ⟨hdb, rfl⟩ := hdb
  refine (runs_set (hs.setDb hdb) Session.grows_same).bind fun _ s' hs' hg' _ => ?_
  have hstored : ∀ t, s'.objects[ref]? = some t → t.Sound c s' →
      Tracked.Sound c s' { t with stage := .stored, key, values := [] } :=
    fun t _ ht => ⟨ht.model, ⟨by simp, by simp⟩, fun kv hkv => absurd hkv List.not_mem_nil, ht.ends⟩
  refine Runs.round (runs_modifyObject hs' ?_ hstored)
  exact fun _ => rfl

theorem runs_writeRows (hc : c.Sound) (hs : s.Sound c) (hm : c.Has m) :
    Runs c s (writeRows m) fun _ _ => True := by
  refine (runs_refsOf hc hs hm _).bind fun refs s' _ _ hrefs => ?_
  obtain ⟨rfl, hrefs⟩ := hrefs
  refine (runs_forIn hs fun ref hr s hs hg => Runs.round (runs_updateRow hs ((hrefs ref hr).mono hg))).bind
    fun _ s hs _ _ => ?_
  refine (runs_refsWhere hs _).bind fun fresh s' _ _ hfresh => ?_
  obtain ⟨rfl, -⟩ := hfresh
  refine Runs.get ?_
  have hqueue := hs.queue
  have hkept : ∀ (row : Ref × Row) (t t' : Session), t.Grows t' → Row.Fits row.2 → Row.Fits row.2 :=
    fun _ _ _ _ h => h
  refine (runs_mapM hs hkept fun ref hr s hs hg => ?_).bind fun rows s hs _ hrows => ?_
  · obtain ⟨m, hhas⟩ := hqueue ref (List.mem_filter.mp hr).1
    refine (runs_object hs (hhas.mono hg)).bind fun t s' _ _ ht => ?_
    obtain ⟨rfl, ht, -⟩ := ht
    refine (runs_lift hs (newRow_handed hc (hs.object ht))).bind fun row s' _ _ hrow => ?_
    obtain ⟨hrow, rfl⟩ := hrow
    exact runs_pure hs hrow
  · refine Runs.bind (runs_forIn hs fun (ref, row) hr s hs _ => ?_) fun _ _ ht _ _ => runs_pure ht trivial
    exact runs_insertRow hs row (hrows _ hr)

/-! ## Join tables -/

theorem runs_keyOf (hs : s.Sound c) (hr : s.Has ref m) :
    Runs c s (do return ((← object ref).key.head?).getD Cell.null) fun _ s' => s' = s :=
  (runs_object hs hr).bind fun _ _ hs' _ ht => runs_pure hs' ht.1

theorem runs_keysOf {refs : List Ref} (hs : s.Sound c) (h : ∀ ref ∈ refs, ∃ m, s.Has ref m) :
    Runs c s (refs.mapM fun r => do return ((← object r).key.head?).getD Cell.null) fun _ _ => True := by
  refine (runs_mapM (P := fun _ _ => True) hs (fun _ _ _ _ h => h) fun ref hr s' hs' hg => ?_).mono
    fun _ _ _ _ _ => trivial
  obtain ⟨m, hm⟩ := h ref hr
  exact (runs_keyOf hs' (hm.mono hg)).mono fun _ _ _ _ _ => trivial

/-- The pairs that came take the place of those that went. -/
theorem runs_setPairs {gone come : List Ref} {own : Cell} {table : String} (hs : s.Sound c)
    (hgone : ∀ ref ∈ gone, ∃ m, s.Has ref m) (hcome : ∀ ref ∈ come, ∃ m, s.Has ref m) :
    Runs c s
      (do
        let gone ← gone.mapM fun r => do return ((← object r).key.head?).getD Cell.null
        let come ← come.mapM fun r => do return ((← object r).key.head?).getD Cell.null
        modify fun s =>
          let pairs := (s.db.pairsOf table).filter fun (a, b) => !(a == own && gone.contains b)
          { s with db := s.db.setPairs table (pairs ++ come.map (own, ·)) }
        pure (ForInStep.yield PUnit.unit))
      fun step _ => step = .yield ⟨⟩ := by
  refine (runs_keysOf hs hgone).bind fun gone s hs hg _ => ?_
  refine (runs_keysOf hs fun ref hr => ?_).bind fun come s' hs' _ _ => ?_
  · obtain ⟨m, hm⟩ := hcome ref hr
    exact ⟨m, hm.mono hg⟩
  · exact Runs.round (runs_modify (hs'.setDb hs'.db) Session.grows_same)

theorem runs_writePairs (hc : c.Sound) (hs : s.Sound c) : Runs c s (writePairs c) fun _ _ => True := by
  refine (runs_refsWhere hs _).bind fun refs s' _ _ hrefs => ?_
  obtain ⟨rfl, hrefs⟩ := hrefs
  refine Runs.bind (runs_forIn hs fun ref hr s hs hg => ?_) fun _ _ ht _ _ => runs_pure ht trivial
  obtain ⟨t, ht, -⟩ := hrefs ref hr
  have hhas := (Session.has_of_object ht).mono hg
  refine (runs_object hs hhas).bind fun t s' _ _ ht => ?_
  obtain ⟨rfl, ht, -⟩ := ht
  have htracked := hs.object ht
  refine Runs.round (runs_forIn hs fun l hl s hs hg' => ?_)
  split
  next table hk =>
    refine (runs_keyOf hs (hhas.mono hg')).bind fun own s'' _ _ hown => ?_
    subst hown
    obtain ⟨target, hnamed, _⟩ := hc.target_of htracked.model hl
    split
    next hdoomed _ => exact absurd hdoomed htracked.staged.1
    next hdoomed _ => exact absurd hdoomed htracked.staged.1
    next e hlook _ =>
      have hends := (htracked.ends l hl e hlook).mono hg'
      exact runs_setPairs hs (fun r hr => ⟨target, hends.before target hnamed r (Ends.mem_removed hr).1⟩)
        fun r hr => ⟨target, hends.now target hnamed r (Ends.mem_added hr)⟩
    next =>
      exact runs_setPairs hs (fun r hr => absurd hr List.not_mem_nil) fun r hr => absurd hr List.not_mem_nil
  next => exact runs_next hs

/-! ## The pass -/

theorem runs_releaseDoomed (hs : s.Sound c) : Runs c s (releaseDoomed c m) fun _ _ => True := by
  refine (runs_doomed hs fun t ht => by simpa using ht).bind fun refs s' _ _ hrefs => ?_
  obtain ⟨rfl, rfl⟩ := hrefs
  exact runs_pure hs trivial

theorem runs_removeRows (hs : s.Sound c) : Runs c s (removeRows m) fun _ _ => True := by
  refine (runs_doomed hs fun t ht => ?_).bind fun refs s' _ _ hrefs => ?_
  · simp only [Bool.and_eq_true, beq_iff_eq] at ht
    exact ht.1
  · obtain ⟨rfl, rfl⟩ := hrefs
    exact runs_pure hs trivial

theorem lookup_map_ends {f : Ends → Ends} {ends : List (String × Ends)} {name : String} :
    (ends.map fun (name, e) => (name, f e)).lookup name = (ends.lookup name).map f := by
  induction ends with
  | nil => rfl
  | cons entry rest ih =>
      rw [List.map_cons, List.lookup_cons, List.lookup_cons, ih]
      cases name == entry.1 <;> rfl

/-- What is written is nothing that is left to be cut. -/
theorem settle_sound {t : Tracked} (ht : t.Sound c s) : (settle t).Sound c s := by
  unfold settle
  split
  next =>
    refine ⟨ht.model, ht.staged, fun kv hkv => absurd hkv List.not_mem_nil, fun l hl e he => ?_⟩
    obtain ⟨old, hold, rfl⟩ := Option.map_eq_some_iff.mp
      ((lookup_map_ends (f := fun e => { e with before := some e.now })).symm.trans he)
    have hends := ht.ends l hl old hold
    refine ⟨hends.now, hends.now, fun target _ => .inr ?_⟩
    split
    next => exact fun hnow => congrArg some hnow
    next => exact List.Subset.refl old.now
    next => trivial
  next => exact ht

theorem settle_model (t : Tracked) : (settle t).model = t.model := by
  unfold settle
  split <;> rfl

theorem runs_flush (hc : c.Sound) (hs : s.Sound c) : Runs c s (flush c) fun _ _ => True := by
  -- nothing is doomed in a sound session, so what is left are the rows, the pairs, and the ends that they settle
  refine (runs_forIn hs fun m _ s hs _ => Runs.round (runs_releaseDoomed hs)).bind fun _ s hs _ _ => ?_
  refine (runs_forIn hs fun m hm s hs _ => ?_).bind fun _ s hs _ _ => ?_
  · have hhas := Catalog.has_of_inOrder hm
    refine (runs_holdOwn hc hs hhas).bind fun _ s hs _ _ => ?_
    exact (runs_holdOthers hc hs hhas).bind fun _ s hs _ _ => Runs.round (runs_writeRows hc hs hhas)
  refine (runs_writePairs hc hs).bind fun _ s hs _ _ => ?_
  refine (runs_forIn hs fun m _ s hs _ => Runs.round (runs_removeRows hs)).bind fun _ s hs _ _ => ?_
  have hgrows : s.Grows { s with objects := s.objects.map settle, queue := [] } := Session.grows_map settle_model
  refine (runs_modify ⟨fun t ht => ?_, fun ref hr => absurd hr List.not_mem_nil, hs.db⟩ hgrows).mono
    fun _ _ _ _ _ => trivial
  obtain ⟨old, hold, rfl⟩ := List.mem_map.mp ht
  exact (settle_sound (hs.objects old hold)).mono hgrows

end Work

end RecordGraph
