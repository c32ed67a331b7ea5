import RecordGraph.Proofs.Relational.Session.Inserting
import RecordGraph.Proofs.Relational.Session.Linking
import RecordGraph.Proofs.Relational.Touching

/-!
# Sessions that only edit

Where all objects stand for rows of the database and no link was changed, one pass writes what was set on the objects and
does nothing else. So if nothing is set but on rows that may be touched, no other rows are.
-/

namespace RecordGraph

namespace Work

variable {K : Failure → Prop} {P : Row → Prop} {c : Catalog} {m target : Model} {db₀ : Database} {ref : Ref}
  {s s' : Session} {t : Tracked} {l : Link} {row : Row}

/-! ## Sessions -/

/-- The object stands for a row of the database, and its links lead where they lead there. -/
structure Resting (target : Model) (t : Tracked) : Prop where
  stored : t.stage = .stored
  known : t.model.name = target.name → t.model = target
  settled : ∀ name e, t.ends.lookup name = some e → e.before = some e.now

/-- A session over the rows of a database, in which at most one object was set, which stands for a row of one model that
may be touched. -/
structure Edits (db₀ : Database) (P : Row → Prop) (target : Model) (s : Session) : Prop where
  changes : db₀.ChangesOnly P target.name s.db
  keyed : s.db.Keyed target
  resting : ∀ (ref : Ref) (t : Tracked), s.objects[ref]? = some t → Resting target t
  edited : ∀ (ref : Ref) (t : Tracked), s.objects[ref]? = some t → t.values ≠ [] →
    t.model = target ∧ db₀.Touchable P target s.db t.key ∧
      ∀ (other : Ref) (t' : Tracked), s.objects[other]? = some t' → t'.values ≠ [] → other = ref

/-- Nothing is left to be written. -/
def Quiet (s : Session) : Prop := ∀ (ref : Ref) (t : Tracked), s.objects[ref]? = some t → t.values = []

theorem Edits.start {db : Database} (h : db.Keyed target) : Edits db P target { db } where
  changes := .refl
  keyed := h
  resting _ _ ht := nomatch ht
  edited _ _ ht := nomatch ht

theorem quiet_start {db : Database} : Quiet { db } := fun _ _ ht => nomatch ht

theorem Edits.settled (hs : Edits db₀ P target s) : Settled s := fun ref t ht => (hs.resting ref t ht).settled

/-- What is known of all objects is known after one of them was set, or its key was changed. -/
theorem Edits.alter {db : Database} {t' : Tracked} (hs : Edits db₀ P target s) (halters : s.Alters s' ref t')
    (hrest : Resting target t') (hdb : s'.db = db) (hchanges : db₀.ChangesOnly P target.name db) (hkeyed : db.Keyed target)
    (htouch : t'.values ≠ [] → t'.model = target ∧ db₀.Touchable P target db t'.key)
    (hothers : ∀ (other : Ref) (u : Tracked), other ≠ ref → s.objects[other]? = some u → u.values = []) :
    Edits db₀ P target s' := by
  subst hdb
  refine ⟨hchanges, hkeyed, fun other u hu => ?_, fun other u hu hvalues => ?_⟩
  · rcases halters.object hu with ⟨_, rfl⟩ | ⟨_, hold⟩
    · exact hrest
    · exact hs.resting other u hold
  · rcases halters.object hu with ⟨rfl, rfl⟩ | ⟨hne, hold⟩
    · obtain ⟨htarget, htouchable⟩ := htouch hvalues
      refine ⟨htarget, htouchable, fun another w hw hset => ?_⟩
      rcases halters.object hw with ⟨rfl, _⟩ | ⟨hne, hold⟩
      · rfl
      · exact absurd (hothers another w hne hold) hset
    · exact absurd (hothers other u hne hold) hvalues

/-- The object is as it was, but that its links may have been read and what was set on it may have been written. -/
structure Revised (target : Model) (t t' : Tracked) : Prop where
  resting : Resting target t'
  model : t'.model = t.model
  key : t'.key = t.key
  values : t'.values = t.values ∨ t'.values = []

theorem Edits.revise (hs : Edits db₀ P target s) (hdb : s'.db = s.db) (h : ∀ (ref : Ref) (t' : Tracked),
    s'.objects[ref]? = some t' → ∃ t, s.objects[ref]? = some t ∧ Revised target t t') : Edits db₀ P target s' where
  changes := hdb ▸ hs.changes
  keyed := hdb ▸ hs.keyed
  resting ref t' ht' := by
    obtain ⟨t, ht, hrevised⟩ := h ref t' ht'
    exact hrevised.resting
  edited ref t' ht' hvalues := by
    have hset {u u' : Tracked} (hu : Revised target u u') (hne : u'.values ≠ []) : u.values ≠ [] :=
      hu.values.resolve_right hne ▸ hne
    obtain ⟨t, ht, hrevised⟩ := h ref t' ht'
    obtain ⟨hmodel, htouch, honly⟩ := hs.edited ref t ht (hset hrevised hvalues)
    rw [hrevised.model, hrevised.key, hdb]
    refine ⟨hmodel, htouch, fun other u' hu' hset' => ?_⟩
    obtain ⟨u, hu, hrevised'⟩ := h other u' hu'
    exact honly other u hu (hset hrevised' hset')

theorem Quiet.revise (hq : Quiet s) (h : ∀ (ref : Ref) (t' : Tracked), s'.objects[ref]? = some t' →
    ∃ t, s.objects[ref]? = some t ∧ Revised target t t') : Quiet s' := by
  intro ref t' ht'
  obtain ⟨t, ht, hrevised⟩ := h ref t' ht'
  exact hrevised.values.elim (fun hvalues => hvalues.trans (hq ref t ht)) id

/-! ## The pass -/

/-- What was set on the row of an object is written in its place, and the object goes by the new key. -/
theorem updateRow_edits (hs : Edits db₀ P target s) (ht : s.objects[ref]? = some t) (hK : t.values = [] ∨ ∀ f, ¬ K f) :
    (updateRow ref).Avoids K s fun _ s' =>
      Edits db₀ P target s' ∧ s'.objects.length = s.objects.length ∧ (t.values = [] → s' = s) := by
  by_cases hvalues : t.values = []
  · exact Act.avoids_of_run (updateRow_idle ht hvalues) ⟨hs, rfl, fun _ => rfl⟩
  obtain ⟨hmodel, htouch, honly⟩ := hs.edited ref t ht hvalues
  have hno := hK.resolve_left hvalues
  rw [updateRow]
  refine .after (object_run ht) (.get ?_)
  split
  · exact Act.avoids_pure ⟨hs, rfl, fun h => absurd h hvalues⟩
  · dsimp only
    split
    · exact Act.avoids_pure ⟨hs, rfl, fun h => absurd h hvalues⟩
    · refine (Act.avoids_lift (.of_none hno)).bind fun row' s' hrow => ?_
      obtain ⟨_, rfl⟩ := hrow
      refine (Act.avoids_lift (.of_none hno)).bind fun db s' hdb => ?_
      obtain ⟨hreplace, rfl⟩ := hdb
      rw [hmodel] at hreplace
      refine .after (t := { s' with db }) (a := PUnit.unit) rfl ?_
      refine Act.avoids_of_run (a := PUnit.unit) rfl ⟨?_, List.length_modify .., fun h => absurd h hvalues⟩
      obtain ⟨hstored, hknown, hsettled⟩ := hs.resting ref t ht
      refine hs.alter (Session.alters_modify ht) ⟨hstored, hknown, hsettled⟩ rfl (hs.changes.replace htouch hreplace)
        (hs.keyed.replace hreplace) (fun _ => ⟨hmodel, ?_⟩) fun other u hne hu => ?_
      · rw [hmodel]
        exact htouch.replace hreplace
      · exact by_contra fun hset => hne (honly other u hu hset)

/-- There are no objects of another stage. -/
theorem Edits.refsWhere_none (hs : Edits db₀ P target s) {test : Tracked → Bool}
    (h : ∀ t, t.stage = .stored → test t = false) : (refsWhere test).runOn s = (.ok [], s) := by
  obtain ⟨refs, hrun, hrefs⟩ := refsWhere_run (s := s) test
  obtain rfl : refs = [] := by
    refine List.eq_nil_iff_forall_not_mem.mpr fun ref hin => ?_
    obtain ⟨t, ht, htest⟩ := (hrefs ref).mp hin
    rw [h t (hs.resting ref t ht).stored] at htest
    cases htest
  exact hrun

theorem writeRows_edits (hs : Edits db₀ P target s) (hK : Quiet s ∨ ∀ f, ¬ K f) :
    (writeRows m).Avoids K s fun _ s' =>
      Edits db₀ P target s' ∧ (Quiet s' ∨ ∀ f, ¬ K f) ∧ s'.objects.length = s.objects.length := by
  obtain ⟨refs, hrun, hrefs⟩ := refsWhere_run (s := s) fun t => t.stage == .stored && t.model.name == m.name
  let I (rest : List Ref) (s' : Session) : Prop := rest ⊆ refs ∧
    Edits db₀ P target s' ∧ (Quiet s' ∨ ∀ f, ¬ K f) ∧ s'.objects.length = s.objects.length
  have hstart : I refs s := ⟨List.Subset.refl _, hs, hK, rfl⟩
  rw [writeRows]
  refine .after hrun ((Act.avoids_forIn (I := I) (fun ref rest s' hs' => ?_) hstart).bind fun _ s' hs' => ?_)
  · obtain ⟨hrest, hs', hK, hlength⟩ := hs'
    obtain ⟨hin, hrest⟩ := List.cons_subset.mp hrest
    obtain ⟨_, hold, _⟩ := (hrefs ref).mp hin
    have ht := List.getElem?_eq_getElem (hlength ▸ (List.getElem?_eq_some_iff.mp hold).1)
    refine (updateRow_edits hs' ht (hK.imp_left fun hq => hq ref _ ht)).bind fun _ s'' hs'' => ?_
    obtain ⟨hs'', hlength', hidle⟩ := hs''
    refine Act.avoids_pure ⟨rfl, hrest, hs'', hK.imp_left fun hq => ?_, hlength'.trans hlength⟩
    rw [hidle (hq ref _ ht)]
    exact hq
  · obtain ⟨_, hs', hK', hlength⟩ := hs'
    refine .after (hs'.refsWhere_none fun t ht => by simp [ht]) (.get ?_)
    have hqueue : s'.queue.filter ([] : List Ref).contains = [] := by simp
    rw [hqueue]
    exact Act.avoids_of_run rfl ⟨hs', hK', hlength⟩

theorem removeRows_idle (hs : Edits db₀ P target s) : (removeRows m).runOn s = (.ok (), s) :=
  (Act.runOn_bind_of (hs.refsWhere_none fun t ht => by simp [ht])).trans rfl

theorem Edits.setPairs {table : String} (hs : Edits db₀ P target s) :
    Edits db₀ P target { s with db := s.db.setPairs table (s.db.pairsOf table) } where
  changes := hs.changes.setPairs
  keyed := ⟨hs.keyed.filled, hs.keyed.distinct⟩
  resting := hs.resting
  edited := hs.edited

/-- The pairs of the join tables are put back as they were. -/
theorem writePairs_edits (hs : Edits db₀ P target s) :
    (writePairs c).Avoids K s fun _ s' => Edits db₀ P target s' ∧ s'.objects = s.objects := by
  obtain ⟨refs, hrun, hrefs⟩ := refsWhere_run (s := s) fun t => t.isAttached || t.stage == .doomed
  let I (rest : List Ref) (s' : Session) : Prop := rest ⊆ refs ∧ Edits db₀ P target s' ∧ s'.objects = s.objects
  have hstart : I refs s := ⟨List.Subset.refl _, hs, rfl⟩
  rw [writePairs]
  refine .after hrun ((Act.avoids_forIn (I := I) (fun ref rest s' hs' => ?_) hstart).bind fun _ s' hs' =>
    Act.avoids_pure hs'.2)
  obtain ⟨hrest, hs', hobjects⟩ := hs'
  obtain ⟨hin, hrest⟩ := List.cons_subset.mp hrest
  obtain ⟨t, ht, _⟩ := (hrefs ref).mp hin
  let J (_ : List Link) (s'' : Session) : Prop := Edits db₀ P target s'' ∧ s''.objects = s.objects
  refine .after (object_run (hobjects ▸ ht)) ((Act.avoids_forIn (I := J) (fun l links s'' hs'' => ?_) ⟨hs', hobjects⟩).bind
    fun _ s'' hs'' => Act.avoids_pure ⟨rfl, hrest, hs''⟩)
  obtain ⟨hs'', hobjects⟩ := hs''
  split
  · rename_i table hkind
    have ht'' : s''.objects[ref]? = some t := hobjects ▸ ht
    refine .after ((Act.runOn_bind_of (object_run ht'')).trans rfl) ?_
    -- no link was changed, so no pair goes and none comes, and the pairs that are written are those that were read
    have hback (pairs : List (Cell × Cell)) (hpairs : pairs = s''.db.pairsOf table) :
        J links { s'' with db := s''.db.setPairs table pairs } := hpairs ▸ ⟨hs''.setPairs, hobjects⟩
    rw [(hs''.resting ref t ht'').stored]
    cases hends : t.ends.lookup l.name with
    | none => exact Act.avoids_of_run (a := .yield ⟨⟩) rfl ⟨rfl, hback _ (by simp)⟩
    | some e =>
      have hsettled := hs''.settled ref t ht'' l.name e hends
      dsimp only
      rw [added_of_settled hsettled, removed_of_settled hsettled]
      exact Act.avoids_of_run (a := .yield ⟨⟩) rfl ⟨rfl, hback _ (by simp)⟩
  · exact Act.avoids_pure ⟨rfl, hs'', hobjects⟩

theorem settle_revised (hs : Edits db₀ P target s) (ht : s.objects[ref]? = some t) :
    Revised target t (settle t) ∧ (settle t).values = [] := by
  obtain ⟨hstored, hknown, _⟩ := hs.resting ref t ht
  have hattached : t.isAttached = true := by rw [Tracked.isAttached, hstored]; rfl
  rw [settle, if_pos hattached]
  refine ⟨⟨⟨hstored, hknown, fun name e he => ?_⟩, rfl, rfl, .inr rfl⟩, rfl⟩
  obtain ⟨old, _, rfl⟩ := Option.map_eq_some_iff.mp
    ((lookup_map_ends (f := fun e => { e with before := some e.now })).symm.trans he)
  rfl

/-- One pass writes what was set, and nothing is left to be written. It fails only if something was set. -/
theorem flush_edits (hs : Edits db₀ P target s) (hK : Quiet s ∨ ∀ f, ¬ K f) :
    (flush c).Avoids K s fun _ s' =>
      Edits db₀ P target s' ∧ Quiet s' ∧ s'.objects.length = s.objects.length := by
  -- of all the steps of a pass only the writing of rows does something, and it carries the invariant
  let I (_ : List Model) (s' : Session) : Prop :=
    Edits db₀ P target s' ∧ (Quiet s' ∨ ∀ f, ¬ K f) ∧ s'.objects.length = s.objects.length
  rw [flush]
  refine .after (Act.runOn_forIn fun m _ => (Act.runOn_bind_of (releaseDoomed_idle fun ref t ht hdoomed => ?_)).trans rfl)
    ((Act.avoids_forIn (I := I) (fun m rest s' hs' => ?_) ⟨hs, hK, rfl⟩).bind fun _ s' hs' => ?_)
  · rw [(hs.resting ref t ht).stored] at hdoomed
    cases hdoomed
  · obtain ⟨hs', hK, hlength⟩ := hs'
    refine .after (holdOwn_idle hs'.settled) (.after (holdOthers_idle hs'.settled) ?_)
    refine (writeRows_edits hs' hK).bind fun _ s'' hs'' => ?_
    obtain ⟨hs'', hK, hlength'⟩ := hs''
    exact Act.avoids_pure ⟨rfl, hs'', hK, hlength'.trans hlength⟩
  · obtain ⟨hs', _, hlength⟩ := hs'
    refine (writePairs_edits hs').bind fun _ s'' hs'' => ?_
    obtain ⟨hs'', hobjects⟩ := hs''
    refine .after (Act.runOn_forIn fun m _ => (Act.runOn_bind_of (removeRows_idle hs'')).trans rfl) ?_
    have hsettled (ref : Ref) (t' : Tracked) (ht' : (s''.objects.map settle)[ref]? = some t') :
        ∃ t, s''.objects[ref]? = some t ∧ Revised target t t' ∧ t'.values = [] := by
      rw [List.getElem?_map] at ht'
      obtain ⟨t, ht, rfl⟩ := Option.map_eq_some_iff.mp ht'
      exact ⟨t, ht, settle_revised hs'' ht⟩
    refine Act.avoids_of_run rfl ⟨hs''.revise rfl fun ref t' ht' => ?_, fun ref t' ht' => ?_, ?_⟩
    · obtain ⟨t, ht, hrevised, _⟩ := hsettled ref t' ht'
      exact ⟨t, ht, hrevised⟩
    · obtain ⟨_, _, _, hvalues⟩ := hsettled ref t' ht'
      exact hvalues
    · rw [← hlength, ← hobjects]
      exact List.length_map _

/-! ## Objects of rows -/

/-- A row of the database has an object, as which nothing is changed. -/
theorem ofRow_edits (hs : Edits db₀ P target s) (hm : m.name = target.name → m = target) :
    (ofRow m row).Avoids K s fun ref s' => Edits db₀ P target s' ∧ s'.db = s.db ∧ (Quiet s → Quiet s') ∧
      ∃ t, s'.objects[ref]? = some t ∧ t.model.name = m.name ∧ t.key = row.key m := by
  refine .get ?_
  dsimp only
  split
  · rename_i ref hfound
    obtain ⟨hlt, htest, _⟩ := List.findIdx?_eq_some_iff_getElem.mp hfound
    simp only [Bool.and_eq_true, beq_iff_eq] at htest
    exact Act.avoids_pure ⟨hs, rfl, id, _, List.getElem?_eq_getElem hlt, htest.1.2, htest.2⟩
  · have halters : s.Alters { s with objects := s.objects ++ [{ model := m, stage := .stored, key := row.key m }] }
        s.objects.length { model := m, stage := .stored, key := row.key m } := Session.alters_track
    have hobject {other : Ref} {u : Tracked} (hu : (s.objects ++ [{ model := m, stage := .stored, key := row.key m }])[other]? =
        some u) := halters.object hu
    refine Act.avoids_of_run track_run ⟨⟨hs.changes, hs.keyed, fun other u hu => ?_, fun other u hu hvalues => ?_⟩, rfl,
      fun hq other u hu => ?_, _, halters.here, rfl, rfl⟩
    · rcases hobject hu with ⟨_, rfl⟩ | ⟨_, hold⟩
      · exact ⟨rfl, hm, nofun⟩
      · exact hs.resting other u hold
    · rcases hobject hu with ⟨_, rfl⟩ | ⟨_, hold⟩
      · exact absurd rfl hvalues
      · obtain ⟨hmodel, htouch, honly⟩ := hs.edited other u hold hvalues
        refine ⟨hmodel, htouch, fun another w hw hset => ?_⟩
        rcases hobject hw with ⟨_, rfl⟩ | ⟨_, hold⟩
        · exact absurd rfl hset
        · exact honly another w hold hset
    · rcases hobject hu with ⟨_, rfl⟩ | ⟨_, hold⟩
      · rfl
      · exact hq other u hold

theorem ofRows_edits {rows : List Row} (hs : Edits db₀ P target s) :
    (rows.mapM (ofRow target)).Avoids K s fun _ s' => Edits db₀ P target s' ∧ s'.db = s.db ∧ (Quiet s → Quiet s') := by
  induction rows generalizing s with
  | nil => exact Act.avoids_pure ⟨hs, rfl, id⟩
  | cons row rows ih =>
    rw [List.mapM_cons]
    refine (ofRow_edits hs fun _ => rfl).bind fun _ s' hs' => ?_
    obtain ⟨hs', hdb, hq, _⟩ := hs'
    refine (ih hs').bind fun _ s'' hs'' => Act.avoids_pure ?_
    obtain ⟨hs'', hdb', hq'⟩ := hs''
    exact ⟨hs'', hdb'.trans hdb, hq' ∘ hq⟩

theorem storedEnds_edits (hs : Edits db₀ P target s) (ht : s.objects[ref]? = some t)
    (hnamed : c.named l.target = .ok target) :
    (storedEnds c ref l).Avoids K s fun _ s' => Edits db₀ P target s' ∧ s'.db = s.db ∧ (Quiet s → Quiet s') := by
  have hrow : (rowOf ref).runOn s = (.ok (s.db.row? t.model t.key), s) := (Act.runOn_bind_of (object_run ht)).trans rfl
  refine .after hrow ?_
  split
  · exact Act.avoids_pure ⟨hs, rfl, id⟩
  · rw [hnamed]
    exact .after (a := target) rfl (.get (ofRows_edits hs))

theorem setEnds_revised {found : List Ref} (hs : Edits db₀ P target s) (ht : s.objects[ref]? = some t) :
    Revised target t (t.setEnds l ⟨some found, found⟩) := by
  obtain ⟨hstored, hknown, hsettled⟩ := hs.resting ref t ht
  refine ⟨⟨hstored, hknown, fun name e he => ?_⟩, rfl, rfl, .inl rfl⟩
  rw [Tracked.lookup_setEnds] at he
  split at he
  · cases he
    rfl
  · exact hsettled name e he

/-- To read what an object is linked to changes nothing that is not to be written anyway. -/
theorem endsOf_edits (hs : Edits db₀ P target s) (hK : Quiet s ∨ ∀ f, ¬ K f) (ht : s.objects[ref]? = some t)
    (hnamed : c.named l.target = .ok target) :
    (endsOf c ref l).Avoids K s fun _ s' => Edits db₀ P target s' ∧ (Quiet s → Quiet s') := by
  refine .after (object_run ht) ?_
  cases hends : t.ends.lookup l.name with
  | some e => exact Act.avoids_pure ⟨hs, id⟩
  | none =>
    dsimp only
    rw [(hs.resting ref t ht).stored, if_pos (beq_self_eq_true _)]
    refine (flush_edits hs hK).bind fun _ s' hs' => ?_
    obtain ⟨hs', hq, hlength⟩ := hs'
    have ht' := List.getElem?_eq_getElem (hlength ▸ (List.getElem?_eq_some_iff.mp ht).1)
    refine (storedEnds_edits hs' ht' hnamed).bind fun found s'' hs'' => ?_
    obtain ⟨hs'', _, hq'⟩ := hs''
    generalize (if l.isList then found else found.take 1) = found
    have hrevised (other : Ref) (u' : Tracked) (hu' : (s''.objects.modify ref fun t =>
        t.setEnds l ⟨some found, found⟩)[other]? = some u') :
        ∃ u, s''.objects[other]? = some u ∧ Revised target u u' := by
      rw [List.getElem?_modify] at hu'
      obtain ⟨u, hu, rfl⟩ := Option.map_eq_some_iff.mp hu'
      refine ⟨u, hu, ?_⟩
      split
      · exact setEnds_revised hs'' hu
      · exact ⟨hs''.resting other u hu, rfl, rfl, .inl rfl⟩
    exact Act.avoids_of_run rfl ⟨hs''.revise rfl hrevised, fun _ => (hq' hq).revise hrevised⟩

/-- The row that is looked up is the first of those that satisfy the filter once all is written. -/
theorem findOne_edits {filter : Value} (hs : Edits db₀ P target s) (hK : Quiet s ∨ ∀ f, ¬ K f)
    (hread : Act.Spares K (c.condition target filter >>= fun cond => cond.bind)) :
    (findOne c target filter).Avoids K s fun found s' => Edits db₀ P target s' ∧ Quiet s' ∧
      ∃ cond, c.condition target filter = .ok cond ∧ match found with
        | none => s'.db.select target cond = []
        | some ref => ∃ row t, (s'.db.select target cond).head? = some row ∧ s'.objects[ref]? = some t ∧
            t.model = target ∧ t.key = row.key target := by
  rw [findOne]
  cases hcond : c.condition target filter with
  | error failure =>
    rw [hcond] at hread
    exact Act.avoids_throw hread
  | ok cond =>
    rw [hcond] at hread
    refine .after (a := cond) rfl ((flush_edits hs hK).bind fun _ s' hs' => ?_)
    obtain ⟨hs', hq, _⟩ := hs'
    refine (Act.avoids_lift hread).bind fun _ s'' hbound => ?_
    obtain ⟨_, rfl⟩ := hbound
    refine .get ?_
    cases hselect : s''.db.select target cond with
    | nil => exact Act.avoids_pure ⟨hs', hq, cond, rfl, hselect⟩
    | cons row rest =>
      dsimp only
      rw [map_eq_pure_bind]
      refine (ofRow_edits hs' fun _ => rfl).bind fun ref s' hs => Act.avoids_pure ?_
      obtain ⟨hs, hdb, hq', t, ht, hname, hkey⟩ := hs
      refine ⟨hs, hq' hq, cond, rfl, row, t, ?_, ht, (hs.resting ref t ht).known hname, hkey⟩
      rw [hdb, hselect, List.head?_cons]

/-- To set columns on the object of a row that may be touched. -/
theorem setColumns_edits {levels : Nat} {payload : Value} (hno : ∀ f, ¬ K f) (hs : Edits db₀ P target s) (hq : Quiet s)
    (ht : s.objects[ref]? = some t) (hmodel : t.model = target) (htouch : db₀.Touchable P target s.db t.key)
    (hplain : ∀ members, payload = .object members → ∀ kv ∈ members, target.link? kv.1 = none) :
    (setWithin c levels ref payload).Avoids K s fun _ s' => Edits db₀ P target s' := by
  have hpresent (v : Value) : (if v.isPresent then throw .illFormed else pure () : Work Unit).Avoids K s fun _ s' =>
      Edits db₀ P target s' := by
    split
    · exact Act.avoids_throw (hno _)
    · exact Act.avoids_pure hs
  cases levels with
  | zero => exact hpresent payload
  | succ levels =>
    obtain ⟨members, rfl⟩ | hnone := Classical.em (∃ members, payload = .object members)
    · rw [setWithin]
      refine .after (object_run ht) ?_
      -- the object keeps its key while columns are set on it, so what may be touched stays the same row
      let I (rest : Object) (s' : Session) : Prop := rest ⊆ members ∧ Edits db₀ P target s' ∧ s'.db = s.db ∧
        (∃ t', s'.objects[ref]? = some t' ∧ t'.model = target ∧ t'.key = t.key) ∧
        ∀ (other : Ref) (u : Tracked), other ≠ ref → s'.objects[other]? = some u → u.values = []
      have hstart : I members s :=
        ⟨List.Subset.refl _, hs, rfl, ⟨t, ht, hmodel, rfl⟩, fun other u _ hu => hq other u hu⟩
      refine (Act.avoids_forIn (I := I) (fun kv rest s' hs' => ?_) hstart).bind fun _ s' hs' =>
        Act.avoids_pure hs'.2.1
      obtain ⟨key, v⟩ := kv
      obtain ⟨hrest, hs', hdb, ⟨t', ht', hmodel', hkey⟩, hothers⟩ := hs'
      obtain ⟨hin, hrest⟩ := List.cons_subset.mp hrest
      dsimp only
      rw [hmodel, hplain members rfl _ hin]
      cases target.column? key with
      | none => exact Act.avoids_throw (hno _)
      | some column =>
        refine (Act.avoids_lift (.of_none hno)).bind fun w s'' hw => ?_
        obtain ⟨_, rfl⟩ := hw
        have halters : s''.Alters { s'' with objects := s''.objects.modify ref fun t =>
            { t with values := Object.set key w t.values } } ref { t' with values := Object.set key w t'.values } :=
          Session.alters_modify ht'
        refine .after (a := PUnit.unit) rfl (Act.avoids_pure ⟨rfl, hrest, ?_, hdb, ⟨_, halters.here, hmodel', hkey⟩,
          fun other u hne hu => hothers other u hne (halters.elsewhere other hne ▸ hu)⟩)
        obtain ⟨hstored, hknown, hsettled⟩ := hs'.resting ref t' ht'
        exact hs'.alter halters ⟨hstored, hknown, hsettled⟩ rfl hs'.changes hs'.keyed
          (fun _ => ⟨hmodel', by rw [hdb, hkey]; exact htouch⟩) hothers
    · rw [setWithin]
      · exact hpresent payload
      · exact fun members h => hnone ⟨members, h⟩

end Work

end RecordGraph
