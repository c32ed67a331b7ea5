import RecordGraph.Proofs.Relational.Session.Flushing
import RecordGraph.Proofs.Relational.Session.Making

/-!
# Sessions that only insert

New objects that are linked to nothing are written by one pass, which inserts a row for each of them and does nothing
else to the rows of the tables. No constraint of uniqueness is broken if the table admits them.
-/

namespace RecordGraph

open Catalog

namespace Work

variable {c : Catalog} {m m' : Model} {ref : Ref} {row : Object} {rows : List Object} {s s' : Session} {t : Tracked}
  {made queued : List (Ref × Object)}

/-! ## Passes -/

theorem refsWhere_run (test : Tracked → Bool) : ∃ refs, (refsWhere test).runOn s = (.ok refs, s) ∧
    ∀ ref, ref ∈ refs ↔ ∃ t, s.objects[ref]? = some t ∧ test t = true := by
  refine ⟨_, rfl, fun ref => ?_⟩
  rw [List.mem_filter, List.mem_range]
  constructor
  · rintro ⟨hlt, htest⟩
    rw [List.getElem?_eq_getElem hlt] at htest ⊢
    exact ⟨_, rfl, htest⟩
  · rintro ⟨t, ht, htest⟩
    exact ⟨(List.getElem?_eq_some_iff.mp ht).1, by rw [ht]; exact htest⟩

/-- What was linked is written: the links of the objects lead where they lead in the database. -/
def Settled (s : Session) : Prop := ∀ (ref : Ref) (t : Tracked), s.objects[ref]? = some t →
  ∀ name e, t.ends.lookup name = some e → e.before = some e.now

theorem changed_of_settled {e : Ends} (h : e.before = some e.now) : e.changed = false := by
  rw [Ends.changed, h, bne_self_eq_false]

theorem added_of_settled {e : Ends} (h : e.before = some e.now) : e.added = [] := by
  rw [Ends.added, h]
  simp

theorem removed_of_settled {e : Ends} (h : e.before = some e.now) : e.removed = [] := by
  rw [Ends.removed, h]
  simp

theorem holdOwn_idle (h : Settled s) : (holdOwn m).runOn s = (.ok (), s) := by
  obtain ⟨refs, hrun, hrefs⟩ := refsWhere_run (s := s) fun t => t.isAttached && t.model.name == m.name
  rw [holdOwn]
  refine (Act.runOn_bind_of hrun).trans ((Act.runOn_bind_of (Act.runOn_forIn fun ref hr => ?_)).trans rfl)
  obtain ⟨t, ht, _⟩ := (hrefs ref).mp hr
  refine (Act.runOn_bind_of (object_run ht)).trans ?_
  refine (Act.runOn_bind_of (Act.runOn_forIn fun l _ => ?_)).trans rfl
  cases l.kind with
  | holds column =>
      cases hends : t.ends.lookup l.name with
      | none => rfl
      | some e =>
          dsimp only
          rw [changed_of_settled (h ref t ht l.name e hends)]
          rfl
  | heldBy | through => rfl

theorem holdOthers_idle (h : Settled s) : (holdOthers m).runOn s = (.ok (), s) := by
  obtain ⟨refs, hrun, hrefs⟩ := refsWhere_run (s := s) Tracked.isAttached
  rw [holdOthers]
  refine (Act.runOn_bind_of hrun).trans ((Act.runOn_bind_of (Act.runOn_forIn fun ref hr => ?_)).trans rfl)
  obtain ⟨t, ht, _⟩ := (hrefs ref).mp hr
  refine (Act.runOn_bind_of (object_run ht)).trans ((Act.runOn_bind_of (Act.runOn_forIn fun held _ => ?_)).trans rfl)
  obtain ⟨l, column⟩ := held
  dsimp only
  cases hends : t.ends.lookup l.name with
  | none => rfl
  | some e =>
      have hsettled := h ref t ht l.name e hends
      dsimp only
      rw [added_of_settled hsettled, removed_of_settled hsettled]
      rfl

theorem releaseDoomed_idle (h : ∀ (ref : Ref) (t : Tracked), s.objects[ref]? = some t → t.stage ≠ .doomed) :
    (releaseDoomed c m).runOn s = (.ok (), s) := by
  obtain ⟨refs, hrun, hrefs⟩ := refsWhere_run (s := s) (·.stage == .doomed)
  rw [releaseDoomed]
  refine (Act.runOn_bind_of hrun).trans ((Act.runOn_bind_of (Act.runOn_forIn fun ref hr => ?_)).trans rfl)
  obtain ⟨t, ht, hdoomed⟩ := (hrefs ref).mp hr
  exact absurd (beq_iff_eq.mp hdoomed) (h ref t ht)

theorem updateRow_idle (ht : s.objects[ref]? = some t) (hvalues : t.values = []) :
    (updateRow ref).runOn s = (.ok (), s) := by
  rw [updateRow]
  refine (Act.runOn_bind_of (object_run ht)).trans ((Act.runOn_bind_of Act.runOn_get).trans ?_)
  rw [hvalues]
  cases s.db.row? t.model t.key <;> rfl

/-! ## Rows of new objects -/

theorem refused_spares {message : String} : ¬ (refused message).OfUniqueness := fun h => nomatch h.1

theorem bindPlain_spares {v : Value} : Act.Spares Failure.OfUniqueness (ColumnKind.bindPlain v) := by
  unfold ColumnKind.bindPlain
  split
  case h_3 =>
    split
    · exact id
    · trivial
  case h_8 => exact fun h => nomatch h.1
  all_goals trivial

theorem bindReal_spares {v : Value} : Act.Spares Failure.OfUniqueness (ColumnKind.bindReal v) := by
  unfold ColumnKind.bindReal
  split
  case h_3 | h_6 => split <;> first | trivial | exact refused_spares
  case h_7 => exact refused_spares
  all_goals trivial

theorem bindBoolean_spares {v : Value} : Act.Spares Failure.OfUniqueness (ColumnKind.bindBoolean v) := by
  unfold ColumnKind.bindBoolean
  split
  · trivial
  · split
    · trivial
    · split
      · trivial
      · exact refused_spares

theorem bindDate_spares {v : Value} : Act.Spares Failure.OfUniqueness (ColumnKind.bindDate v) := by
  unfold ColumnKind.bindDate
  split <;> first | trivial | exact refused_spares

theorem bindMoment_spares {v : Value} : Act.Spares Failure.OfUniqueness (ColumnKind.bindMoment v) := by
  unfold ColumnKind.bindMoment
  split <;> first | trivial | exact refused_spares

theorem bindColumn_spares {column : Column} {v : Value} : Act.Spares Failure.OfUniqueness (bindColumn column v) := by
  have hbind : Act.Spares Failure.OfUniqueness (column.kind.bind v) := by
    cases column.kind with
    | real | decimal => exact bindReal_spares
    | boolean => exact bindBoolean_spares
    | date => exact bindDate_spares
    | datetime => exact bindMoment_spares
    | _ => exact bindPlain_spares
  unfold bindColumn
  cases hcell : column.kind.bind v with
  | ok cell => trivial
  | error failure =>
      rw [hcell] at hbind
      exact hbind

theorem newRow_spares : Act.Spares Failure.OfUniqueness (newRow t) :=
  .mapM (fun _ => bindColumn_spares.bind fun _ => Act.spares_pure) _

/-- What is read off a row that was made column by column. -/
theorem get_of_mapM {columns : List Column} {f : Column → Except Failure Cell} {r : Row} {column : Column}
    (hnames : (columns.map (·.name)).Nodup) (h : (columns.mapM fun column => do
      return (column.name, ← f column)) = .ok r) (hin : column ∈ columns) : f column = .ok (r.get column.name) := by
  induction columns generalizing r with
  | nil => cases hin
  | cons first rest ih =>
      rw [List.map_cons, List.nodup_cons] at hnames
      rw [List.mapM_cons] at h
      cases hfirst : f first with
      | error failure => rw [hfirst] at h; cases h
      | ok cell =>
          cases hrest : rest.mapM fun column => do return (column.name, ← f column) with
          | error failure => rw [hfirst, hrest] at h; cases h
          | ok more =>
              rw [hfirst, hrest] at h
              cases h
              rcases List.mem_cons.mp hin with rfl | hin
              · rw [hfirst, Row.get, List.lookup_cons_self, Option.getD_some]
              · have hne : (column.name == first.name) = false :=
                  beq_eq_false_iff_ne.mpr fun he => hnames.1 (he ▸ List.mem_map_of_mem hin)
                rw [ih hnames.2 hrest hin, Row.get, Row.get, List.lookup_cons, hne]

/-- A new object has the cells that are given for its identities, if no default takes their place. -/
theorem newRow_made {r : Row} (hnames : (m.columns.map (·.name)).Nodup)
    (hdefaults : ∀ columns ∈ identities m, ∀ column ∈ columns, column.default? = none) (ht : Built m row t)
    (h : newRow t = .ok r) : MadeOf m row r := by
  obtain ⟨values, ht, hassigned⟩ := ht
  intro columns hcolumns column hcolumn
  have hin := mem_identities hcolumns column hcolumn
  have hgiven := hassigned.coerced (Model.column?_of_mem hnames hin)
  rw [ht, newRow] at h
  have hcell := get_of_mapM hnames h hin
  dsimp only at hcell
  replace hcell : bindColumn column (values.get column.name) = .ok (r.get column.name) := by
    rw [hdefaults columns hcolumns column hcolumn] at hcell
    cases hv : values.get column.name <;> rw [hv] at hcell <;> exact hcell
  rw [Row.cells, givenCells, hgiven]
  show _ = Condition.cellOf (bindColumn column (values.get column.name))
  rw [hcell]
  rfl

/-! ## The pass -/

/-- A table row was made of what is given for an object. -/
def MadeFor (m : Model) (p : Ref × Object) (q : Ref × Row) : Prop := q.1 = p.1 ∧ MadeOf m p.2 q.2

theorem newRows_avoids (hnames : (m.columns.map (·.name)).Nodup)
    (hdefaults : ∀ columns ∈ identities m, ∀ column ∈ columns, column.default? = none)
    (h : ∀ p ∈ queued, ∃ t, s.objects[p.1]? = some t ∧ Built m p.2 t) :
    ((queued.map Prod.fst).mapM fun ref => do return (ref, ← newRow (← object ref)) : Work (List (Ref × Row))).Avoids
      Failure.OfUniqueness s fun rows s' => s' = s ∧ List.Forall₂ (MadeFor m) queued rows := by
  induction queued with
  | nil => exact Act.avoids_pure ⟨rfl, .nil⟩
  | cons p queued ih =>
      obtain ⟨t, ht, hbuilt⟩ := h p List.mem_cons_self
      rw [List.map_cons, List.mapM_cons]
      refine Act.Avoids.bind (Q := fun q s' => s' = s ∧ MadeFor m p q) ?_ fun q s' hq => ?_
      · refine .after (object_run ht) ((Act.avoids_lift newRow_spares).bind fun r s' hr => ?_)
        obtain ⟨hr, rfl⟩ := hr
        exact Act.avoids_pure ⟨rfl, rfl, newRow_made hnames hdefaults hbuilt hr⟩
      · obtain ⟨rfl, hq⟩ := hq
        refine (ih fun p hp => h p (List.mem_cons_of_mem _ hp)).bind fun rows s' hrows => ?_
        obtain ⟨rfl, hrows⟩ := hrows
        exact Act.avoids_pure ⟨rfl, .cons hq hrows⟩

theorem Builds.insert {key : List Cell} (h : Builds m s [] ((ref, row) :: queued)) (ht : s.objects[ref]? = some t)
    (halters : s.Alters s' ref { t with stage := .stored, key, values := [] }) : Builds m s' [] queued := by
  have hdistinct := h.distinct
  rw [List.nil_append, List.map_cons, List.nodup_cons] at hdistinct
  refine ⟨nofun, fun p hp => ?_, fun other t' ht' => ?_, hdistinct.2⟩
  · rw [halters.elsewhere p.1 fun he => hdistinct.1 (List.mem_map.mpr ⟨p, hp, he⟩)]
    exact h.pending p (List.mem_cons_of_mem _ hp)
  · by_cases hne : other = ref
    · subst hne
      cases halters.here.symm.trans ht'
      exact ⟨(h.known other t ht).1, .inr ⟨rfl, rfl⟩⟩
    · obtain ⟨hends, hin⟩ := h.known other t' ((halters.elsewhere other hne).symm.trans ht')
      exact ⟨hends, hin.imp_left fun hin => by simpa [hne] using hin⟩

/-- New objects whose rows the table admits are all that is left to be written. -/
def Ready (m : Model) (s : Session) : Prop :=
  ∃ queued, Builds m s [] queued ∧ (queued = [] ∨ s.queue = queued.map Prod.fst) ∧
    Admits m (s.db.rowsOf m.name) (queued.map Prod.snd)

theorem Builds.staged (h : Builds m s [] queued) (ht : s.objects[ref]? = some t) :
    t.stage = .pending ∧ t.model = m ∧ ref ∈ queued.map Prod.fst ∨ t.stage = .stored ∧ t.values = [] := by
  rcases (h.known ref t ht).2 with hin | hstored
  · obtain ⟨p, hp, rfl⟩ := List.mem_map.mp hin
    obtain ⟨own, hown, hstage, hbuilt⟩ := h.pending p hp
    cases hown.symm.trans ht
    exact .inl ⟨hstage, hbuilt.model, hin⟩
  · exact .inr hstored

theorem insertRows_avoids {made : List (Ref × Row)} (hnames : (m.columns.map (·.name)).Nodup)
    (hmade : List.Forall₂ (MadeFor m) queued made) (hbuilds : Builds m s [] queued)
    (hadmits : Admits m (s.db.rowsOf m.name) (queued.map Prod.snd)) :
    (forIn made PUnit.unit fun (ref, row) _ => do
      let s ← get
      let (key, db) ← s.db.insert m row
      set { s with db }
      modifyObject ref fun t => { t with stage := .stored, key, values := [] }
      pure (ForInStep.yield PUnit.unit) : Work PUnit).Avoids Failure.OfUniqueness s fun _ s' => Ready m s' := by
  let I (rest : List (Ref × Row)) (s : Session) : Prop := ∃ queued, List.Forall₂ (MadeFor m) queued rest ∧
    Builds m s [] queued ∧ Admits m (s.db.rowsOf m.name) (queued.map Prod.snd)
  refine (Act.avoids_forIn (I := I) (fun q rest s hs => ?_) ⟨queued, hmade, hbuilds, hadmits⟩).mono
    fun _ s' hs' => ?_
  · obtain ⟨ref, r⟩ := q
    obtain ⟨queued, hmade, hbuilds, hadmits⟩ := hs
    obtain ⟨⟨own, row⟩, queued, ⟨href, hrow⟩, hrest, rfl⟩ := List.forall₂_cons_right_iff.mp hmade
    obtain rfl : ref = own := href
    obtain ⟨t, ht, _⟩ := hbuilds.pending (ref, row) List.mem_cons_self
    have hinsert := hadmits.insert hnames hrow
    refine .get ?_
    cases hrun : s.db.insert m r with
    | error failure =>
        rw [hrun] at hinsert
        exact Act.avoids_throw hinsert
    | ok out =>
        obtain ⟨key, db⟩ := out
        rw [hrun] at hinsert
        refine .after (t := s) (a := (key, db)) rfl ?_
        refine .after (t := { s with db }) (a := PUnit.unit) rfl ?_
        refine .after (t := { s with db, objects := s.objects.modify ref fun t =>
          { t with stage := .stored, key, values := [] } }) (a := PUnit.unit) rfl (Act.avoids_pure ⟨rfl, ?_⟩)
        exact ⟨queued, hrest, hbuilds.insert ht (Session.alters_modify ht), hinsert⟩
  · obtain ⟨queued, hmade, hbuilds, hadmits⟩ := hs'
    cases hmade
    exact ⟨[], hbuilds, .inl rfl, hadmits⟩

theorem writeRows_avoids (hnames : (m.columns.map (·.name)).Nodup)
    (hdefaults : ∀ columns ∈ identities m, ∀ column ∈ columns, column.default? = none)
    (hsame : m'.name = m.name → m' = m) (hs : Ready m s) :
    (writeRows m').Avoids Failure.OfUniqueness s fun _ s' => Ready m s' := by
  obtain ⟨queued, hbuilds, hqueue, hadmits⟩ := hs
  obtain ⟨old, hold, hmem⟩ := refsWhere_run (s := s) fun t => t.stage == .stored && t.model.name == m'.name
  obtain ⟨fresh, hfresh, hmem'⟩ := refsWhere_run (s := s) fun t => t.stage == .pending && t.model.name == m'.name
  rw [writeRows]
  refine .after hold (.after (Act.runOn_forIn fun ref hr => ?_) (.after hfresh (.get ?_)))
  · obtain ⟨t, ht, htest⟩ := (hmem ref).mp hr
    have hstored : t.stage = .stored := by simpa using (Bool.and_eq_true_iff.mp htest).1
    have hvalues : t.values = [] := by
      rcases hbuilds.staged ht with ⟨hpending, _⟩ | ⟨_, hvalues⟩
      · rw [hstored] at hpending
        cases hpending
      · exact hvalues
    exact (Act.runOn_bind_of (updateRow_idle ht hvalues)).trans rfl
  · have hpending {ref : Ref} (hr : ref ∈ fresh) : m'.name = m.name ∧ ref ∈ queued.map Prod.fst := by
      obtain ⟨t, ht, htest⟩ := (hmem' ref).mp hr
      simp only [Bool.and_eq_true, beq_iff_eq] at htest
      rcases hbuilds.staged ht with ⟨_, hmodel, hin⟩ | ⟨hstored, _⟩
      · exact ⟨hmodel ▸ htest.2.symm, hin⟩
      · rw [hstored] at htest
        cases htest.1
    -- Rows are inserted when it is the turn of their model, and never again: by then nothing is queued.
    by_cases hname : m'.name = m.name
    · obtain rfl := hsame hname
      have hlist : s.queue.filter fresh.contains = queued.map Prod.fst := by
        rcases hqueue with rfl | hqueue
        · exact List.filter_eq_nil_iff.mpr fun ref _ hin => nomatch (hpending (List.contains_iff_mem.mp hin)).2
        · rw [hqueue, List.filter_eq_self]
          intro ref hin
          obtain ⟨p, hp, rfl⟩ := List.mem_map.mp hin
          obtain ⟨t, ht, hstage, hbuilt⟩ := hbuilds.pending p hp
          refine List.contains_iff_mem.mpr ((hmem' p.1).mpr ⟨t, ht, ?_⟩)
          rw [hstage, hbuilt.model]
          simp
      rw [hlist]
      refine (newRows_avoids hnames hdefaults fun p hp => ?_).bind fun rows s' hrows => ?_
      · obtain ⟨t, ht, _, hbuilt⟩ := hbuilds.pending p hp
        exact ⟨t, ht, hbuilt⟩
      · obtain ⟨rfl, hmade⟩ := hrows
        exact (insertRows_avoids hnames hmade hbuilds hadmits).bind fun _ _ hready => Act.avoids_pure hready
    · have hlist : s.queue.filter fresh.contains = [] :=
        List.filter_eq_nil_iff.mpr fun ref _ hin => hname (hpending (List.contains_iff_mem.mp hin)).1
      rw [hlist]
      exact Act.avoids_of_run rfl ⟨queued, hbuilds, hqueue, hadmits⟩

/-! ## What comes after -/

theorem refsWhere_shuns {test : Tracked → Bool} : (refsWhere test).Shuns Failure.OfUniqueness :=
  Act.shuns_get.bind fun _ => Act.shuns_pure

theorem object_shuns : (object ref).Shuns Failure.OfUniqueness := by
  refine Act.shuns_get.bind fun s => ?_
  split
  · exact Act.shuns_pure
  · exact Act.shuns_throw id

theorem ofRow_shuns {r : Row} : (ofRow m r).Shuns Failure.OfUniqueness := by
  refine Act.shuns_get.bind fun s => ?_
  dsimp only
  split
  · exact Act.shuns_pure
  · exact fun s => Act.avoids_of_run track_run trivial

theorem storedEnds_shuns {l : Link} : (storedEnds c ref l).Shuns Failure.OfUniqueness := by
  refine (object_shuns.bind fun _ => Act.shuns_get.bind fun _ => Act.shuns_pure).bind fun row => ?_
  split
  · exact Act.shuns_pure
  · refine (Act.shuns_lift ?_).bind fun _ => Act.shuns_get.bind fun _ => .mapM fun _ _ => ofRow_shuns
    unfold Catalog.named
    split
    · trivial
    · exact id

theorem keyOf_shuns : (do return ((← object ref).key.head?).getD Cell.null : Work Cell).Shuns Failure.OfUniqueness :=
  object_shuns.bind fun _ => Act.shuns_pure

theorem setPairs_shuns {gone come : List Ref} {own : Cell} {table : String} : (do
      let gone ← gone.mapM fun r => do return ((← object r).key.head?).getD Cell.null
      let come ← come.mapM fun r => do return ((← object r).key.head?).getD Cell.null
      modify fun s =>
        let pairs := (s.db.pairsOf table).filter fun (a, b) => !(a == own && gone.contains b)
        { s with db := s.db.setPairs table (pairs ++ come.map (own, ·)) }
      pure (ForInStep.yield PUnit.unit) : Work (ForInStep PUnit)).Shuns Failure.OfUniqueness := by
  refine (Act.Shuns.mapM fun _ _ => keyOf_shuns).bind fun _ => (Act.Shuns.mapM fun _ _ => keyOf_shuns).bind fun _ => ?_
  exact Act.shuns_modify.bind fun _ => Act.shuns_pure

theorem writePairs_shuns : (writePairs c).Shuns Failure.OfUniqueness := by
  refine refsWhere_shuns.bind fun refs => Act.Shuns.bind (.forIn fun ref _ _ => ?_) fun _ => Act.shuns_pure
  refine object_shuns.bind fun t => Act.Shuns.bind (.forIn fun l _ _ => ?_) fun _ => Act.shuns_pure
  split
  · refine keyOf_shuns.bind fun own => ?_
    dsimp only
    split
    · exact Act.shuns_pure.bind fun _ => setPairs_shuns
    · exact storedEnds_shuns.bind fun _ => Act.shuns_pure.bind fun _ => setPairs_shuns
    · exact Act.shuns_pure.bind fun _ => setPairs_shuns
    · exact Act.shuns_pure.bind fun _ => setPairs_shuns
  · exact Act.shuns_pure

theorem removeRows_shuns : (removeRows m).Shuns Failure.OfUniqueness := by
  refine refsWhere_shuns.bind fun refs => Act.Shuns.bind (.forIn fun ref _ _ => ?_) fun _ => Act.shuns_pure
  exact object_shuns.bind fun _ => Act.shuns_modify.bind fun _ => Act.shuns_modify.bind fun _ => Act.shuns_pure

/-- A pass over new objects that are linked to nothing breaks no constraint of uniqueness. -/
theorem flush_avoids (hc : c.WellFormed) (hm : c.Has m) (hnames : (m.columns.map (·.name)).Nodup)
    (hdefaults : ∀ columns ∈ identities m, ∀ column ∈ columns, column.default? = none) (hs : Ready m s) :
    (flush c).Avoids Failure.OfUniqueness s fun _ _ => True := by
  have hsame {m' : Model} (hin : m' ∈ c.inOrder) (hname : m'.name = m.name) : m' = m := by
    obtain ⟨_, hm'⟩ := has_of_inOrder hin
    obtain ⟨_, hm⟩ := hm
    exact hc.names _ hm' _ hm hname
  rw [flush]
  refine .after (Act.runOn_forIn fun m' _ => ?_) ?_
  · obtain ⟨queued, hbuilds, _⟩ := hs
    refine (Act.runOn_bind_of (releaseDoomed_idle fun ref t ht hdoomed => ?_)).trans rfl
    rcases hbuilds.staged ht with ⟨hstage, _⟩ | ⟨hstage, _⟩ <;> rw [hdoomed] at hstage <;> cases hstage
  · let I (rest : List Model) (s : Session) : Prop := rest ⊆ c.inOrder ∧ Ready m s
    refine (Act.avoids_forIn (I := I) (fun m' rest s hs => ?_) ⟨List.Subset.refl _, hs⟩).bind fun _ s' _ => ?_
    · obtain ⟨hrest, hready⟩ := hs
      obtain ⟨hin, hrest⟩ := List.cons_subset.mp hrest
      have hsettled : Settled s := by
        obtain ⟨queued, hbuilds, _⟩ := hready
        intro ref t ht name e he
        rw [(hbuilds.known ref t ht).1] at he
        cases he
      refine .after (holdOwn_idle hsettled) (.after (holdOthers_idle hsettled) ?_)
      exact (writeRows_avoids hnames hdefaults (hsame hin) hready).bind fun _ _ hready =>
        Act.avoids_pure ⟨rfl, hrest, hready⟩
    · refine (writePairs_shuns s').bind fun _ s' _ => Act.Shuns.avoids ?_ fun _ s' => Act.shuns_modify s'
      exact .forIn fun m' _ _ => removeRows_shuns.bind fun _ => Act.shuns_pure

/-- To create objects of some rows that the table admits, and to write them, breaks no constraint of uniqueness. -/
theorem createAll_avoids {db : Database} (hc : c.WellFormed) (hm : c.Has m)
    (hnames : (m.columns.map (·.name)).Nodup)
    (hdefaults : ∀ columns ∈ identities m, ∀ column ∈ columns, column.default? = none)
    (hnodup : ∀ row ∈ rows, Object.keys row |>.Nodup) (hplain : ∀ row ∈ rows, ∀ kv ∈ row, m.link? kv.1 = none)
    (hadmits : Admits m (db.rowsOf m.name) rows) :
    (do
      let refs ← rows.mapM (create c m)
      for ref in refs do attach ref
      flush c
      return (rows.length : Int) : Work Int).Avoids Failure.OfUniqueness { db } fun _ _ => True := by
  -- The rows are all made before the first is attached, so there is one invariant for either loop.
  let Made (done : List Ref) (rest : List Object) (s : Session) : Prop := ∃ made : List (Ref × Object),
    made.map Prod.fst = done ∧ made.map Prod.snd ++ rest = rows ∧ Builds m s made [] ∧ s.db = db ∧ s.queue = []
  let Attached (rest : List Ref) (s : Session) : Prop := ∃ made queued : List (Ref × Object),
    made.map Prod.fst = rest ∧ (queued ++ made).map Prod.snd = rows ∧ Builds m s made queued ∧ s.db = db ∧
      s.queue = queued.map Prod.fst
  have hstart : Made [] rows { db } := ⟨[], rfl, rfl, ⟨nofun, nofun, fun _ _ h => (nomatch h), .nil⟩, rfl, rfl⟩
  refine (Act.avoids_mapM (I := Made) (fun done row rest s hs => ?_) hstart).bind fun refs s hs => ?_
  · obtain ⟨made, hdone, hrows, hbuilds, hdb, hqueue⟩ := hs
    have hin : row ∈ rows := hrows ▸ List.mem_append_right _ List.mem_cons_self
    refine (create_builds hbuilds (hnodup row hin) (hplain row hin)).mono fun ref s' hs' => ?_
    obtain ⟨hbuilds', hdb', hqueue'⟩ := hs'
    exact ⟨made ++ [(ref, row)], by simp [hdone], by simpa using hrows, hbuilds', hdb'.trans hdb, hqueue'.trans hqueue⟩
  · obtain ⟨made, hmade, hrows, hbuilds, hdb, hqueue⟩ := hs
    rw [List.append_nil] at hrows
    have hnext : Attached refs s := ⟨made, [], hmade, hrows, hbuilds, hdb, hqueue⟩
    refine (Act.avoids_forIn (I := Attached) (fun ref rest s hs => ?_) hnext).bind fun _ s' hs' => ?_
    · obtain ⟨made, queued, hrest, hrows, hbuilds, hdb, hqueue⟩ := hs
      obtain ⟨⟨own, row⟩, made, rfl, rfl, rfl⟩ := List.map_eq_cons_iff.mp hrest
      obtain ⟨t, ht, hstage, hbuilt⟩ := hbuilds.fresh _ List.mem_cons_self
      refine .after (attach_run ht hstage hbuilt.ends) (Act.avoids_pure ⟨rfl, made, queued ++ [(own, row)], rfl, ?_,
        hbuilds.attach ht (Session.alters_modify ht), hdb, ?_⟩)
      · rw [← hrows, List.append_assoc, List.singleton_append]
      · rw [hqueue, List.map_append]
        rfl
    · obtain ⟨made, queued, hmade, hrows, hbuilds, hdb, hqueue⟩ := hs'
      rw [List.map_eq_nil_iff] at hmade
      subst hmade
      rw [List.append_nil] at hrows
      have hready : Ready m s' := ⟨queued, hbuilds, .inr hqueue, by rwa [hdb, hrows]⟩
      exact (flush_avoids hc hm hnames hdefaults hready).bind fun _ _ _ => Act.avoids_pure trivial

end Work

end RecordGraph
