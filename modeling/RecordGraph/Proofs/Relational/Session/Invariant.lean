import RecordGraph.Proofs.Relational.Describing
import RecordGraph.Proofs.Relational.Storable
import RecordGraph.Relational.Change

/-!
# Sound sessions

The objects of a session stand for rows of models of the catalog, and no link that a row cannot do
without is about to be cut. Work on a sound session leaves a sound one that has all its objects, or
ends with a failure that the storage tells as a fault.
-/

namespace RecordGraph

/-! ## Sound catalogs -/

/-- The link can be cut: the column that holds its key is no key itself. -/
def Link.Loose (l : Link) (m target : Model) : Prop :=
  match l.kind with
  | .holds column => ∀ holder, m.column? column = some holder → holder.isKey = false
  | .heldBy column _ => ∀ holder, target.column? column = some holder → holder.isKey = false
  | .through _ => True

/-- The columns that a link is made of are there. A row that is linked to one other on the far side
can be put in its place. -/
def Link.Joins (l : Link) (m target : Model) : Prop :=
  match l.kind with
  | .holds column => (m.column? column).isSome = true ∧ (target.column? l.keyColumn).isSome = true
  | .heldBy column many => (target.column? column).isSome = true ∧ (m.column? l.keyColumn).isSome = true ∧
      (many = false → l.Loose m target)
  | .through _ => True

namespace Catalog

def Has (c : Catalog) (m : Model) : Prop := ∃ entity, (entity, m) ∈ c.models

structure Sound (c : Catalog) : Prop extends c.WellFormed where
  distinct : ∀ e ∈ c.models, (e.2.links.map (·.name)).Nodup
  joined : ∀ e ∈ c.models, ∀ l ∈ e.2.links, ∀ target, c.named l.target = .ok target → l.Joins e.2 target
  defaults : ∀ e ∈ c.models, ∀ column ∈ e.2.columns, ∀ v, column.default? = some v → v.Fits

variable {c : Catalog} {m target : Model} {l : Link}

theorem named_ok_iff {name : String} (h : c.WellFormed) :
    c.named name = .ok m ↔ c.Has m ∧ m.name = name := by
  unfold named
  constructor
  · intro hn
    split at hn
    next found hfound =>
      cases hn
      exact ⟨⟨_, List.mem_of_find?_eq_some hfound⟩, by simpa using List.find?_some hfound⟩
    next => cases hn
  · rintro ⟨⟨entity, hm⟩, rfl⟩
    have hsome : (c.models.find? fun e => e.2.name == m.name).isSome = true :=
      List.find?_isSome.mpr ⟨_, hm, by simp⟩
    obtain ⟨⟨other, m'⟩, hfound⟩ := Option.isSome_iff_exists.mp hsome
    have hname : m'.name = m.name := by simpa using List.find?_some hfound
    have hsame : m' = m := h.names _ (List.mem_of_find?_eq_some hfound) _ hm hname
    rw [hfound, hsame]
    rfl

theorem Sound.named (h : c.Sound) (hm : c.Has m) : c.named m.name = .ok m :=
  (named_ok_iff h.toWellFormed).mpr ⟨hm, rfl⟩

theorem Sound.unique (h : c.Sound) (hm : c.Has m) (ht : c.Has target) (hn : m.name = target.name) :
    m = target := by
  obtain ⟨_, hm⟩ := hm
  obtain ⟨_, ht⟩ := ht
  exact h.names _ hm _ ht hn

theorem Sound.target_of (h : c.Sound) (hm : c.Has m) (hl : l ∈ m.links) :
    ∃ target, c.named l.target = .ok target ∧ c.Has target := by
  obtain ⟨_, hm⟩ := hm
  obtain ⟨⟨entity, target⟩, ht, hname⟩ := h.closed _ hm l hl
  exact ⟨target, (named_ok_iff h.toWellFormed).mpr ⟨⟨entity, ht⟩, hname⟩, entity, ht⟩

theorem Sound.joins (h : c.Sound) (hm : c.Has m) (hl : l ∈ m.links) (ht : c.named l.target = .ok target) :
    l.Joins m target := by
  obtain ⟨_, hm⟩ := hm
  exact h.joined _ hm l hl target ht

theorem Sound.link_unique (h : c.Sound) (hm : c.Has m) {l' : Link} (hl : l ∈ m.links) (hl' : l' ∈ m.links)
    (hn : l.name = l'.name) : l = l' := by
  obtain ⟨_, hm⟩ := hm
  exact List.inj_on_of_nodup_map (h.distinct _ hm) hl hl' hn

end Catalog

/-! ## Sound sessions -/

namespace Session

/-- An object of a model. -/
def Has (s : Session) (ref : Ref) (m : Model) : Prop := ∃ t, s.objects[ref]? = some t ∧ t.model = m

/-- The objects of a session are in another, too. -/
def Grows (s t : Session) : Prop := ∀ ref m, s.Has ref m → t.Has ref m

end Session

/-- What is known of the objects at the other end of a link: they are of its target, and none is about
to be cut off from a key. -/
structure Ends.Sound (c : Catalog) (s : Session) (m : Model) (l : Link) (e : Ends) : Prop where
  now : ∀ target, c.named l.target = .ok target → ∀ ref ∈ e.now, s.Has ref target
  before : ∀ target, c.named l.target = .ok target → ∀ ref ∈ e.before.getD [], s.Has ref target
  uncut : ∀ target, c.named l.target = .ok target → l.Loose m target ∨ match l.kind with
    | .holds _ => e.now = [] → e.before = some []
    | .heldBy .. => e.before.getD [] ⊆ e.now
    | .through _ => True

structure Tracked.Sound (c : Catalog) (s : Session) (t : Tracked) : Prop where
  model : c.Has t.model
  staged : t.stage ≠ .doomed ∧ t.stage ≠ .gone
  values : ∀ kv ∈ t.values, Value.Fits kv.2
  ends : ∀ l ∈ t.model.links, ∀ e, t.ends.lookup l.name = some e → e.Sound c s t.model l

structure Session.Sound (s : Session) (c : Catalog) : Prop where
  objects : ∀ t ∈ s.objects, t.Sound c s
  queue : ∀ ref ∈ s.queue, ∃ m, s.Has ref m
  db : s.db.Fits

variable {c : Catalog} {s s' s'' : Session} {ref : Ref} {m : Model} {t : Tracked} {l : Link} {e : Ends}

namespace Session

theorem Grows.refl (s : Session) : s.Grows s := fun _ _ h => h

theorem Grows.trans (h : s.Grows s') (h' : s'.Grows s'') : s.Grows s'' := fun _ _ hr => h' _ _ (h _ _ hr)

theorem Has.mono (h : s.Has ref m) (hg : s.Grows s') : s'.Has ref m := hg _ _ h

theorem has_of_object (h : s.objects[ref]? = some t) : s.Has ref t.model := ⟨t, h, rfl⟩

theorem Has.model_eq (h : s.Has ref m) (ht : s.objects[ref]? = some t) : t.model = m := by
  obtain ⟨t', ht', rfl⟩ := h
  cases ht'.symm.trans ht
  rfl

theorem Sound.object (h : s.Sound c) (ht : s.objects[ref]? = some t) : t.Sound c s :=
  h.objects t (List.mem_of_getElem? ht)

theorem Sound.model (h : s.Sound c) (hr : s.Has ref m) : c.Has m := by
  obtain ⟨t, ht, rfl⟩ := hr
  exact (h.object ht).model

end Session

theorem Ends.Sound.mono (h : e.Sound c s m l) (hg : s.Grows s') : e.Sound c s' m l where
  now target ht ref hr := (h.now target ht ref hr).mono hg
  before target ht ref hr := (h.before target ht ref hr).mono hg
  uncut := h.uncut

theorem Tracked.Sound.mono (h : t.Sound c s) (hg : s.Grows s') : t.Sound c s' where
  model := h.model
  staged := h.staged
  values := h.values
  ends l hl e he := (h.ends l hl e he).mono hg

namespace Session

theorem grows_modify {f : Tracked → Tracked} (hf : ∀ t, (f t).model = t.model) :
    s.Grows { s with objects := s.objects.modify ref f } := by
  rintro r m ⟨t, ht, rfl⟩
  refine ⟨if ref = r then f t else t, ?_, ?_⟩
  · simp [List.getElem?_modify, ht]
  · split
    · exact hf t
    · rfl

theorem grows_map {f : Tracked → Tracked} {queue : List Ref} (hf : ∀ t, (f t).model = t.model) :
    s.Grows { s with objects := s.objects.map f, queue } := by
  rintro r m ⟨t, ht, rfl⟩
  exact ⟨f t, by simp [ht], hf t⟩

theorem grows_track : s.Grows { s with objects := s.objects ++ [t] } := by
  rintro r m ⟨t', ht, rfl⟩
  refine ⟨t', ?_, rfl⟩
  exact (List.getElem?_append_left (List.getElem?_eq_some_iff.mp ht).1).trans ht

theorem grows_same {db : Database} {queue : List Ref} : s.Grows { s with db, queue } := fun _ _ h => h

theorem Sound.modify (h : s.Sound c) {f : Tracked → Tracked} (hm : ∀ t, (f t).model = t.model)
    (hf : ∀ t, s.objects[ref]? = some t → t.Sound c s → (f t).Sound c s) :
    ({ s with objects := s.objects.modify ref f } : Session).Sound c where
  objects t ht := by
    obtain ⟨r, hr⟩ := List.getElem?_of_mem ht
    rw [List.getElem?_modify] at hr
    obtain ⟨old, hold, rfl⟩ := Option.map_eq_some_iff.mp hr
    refine Tracked.Sound.mono ?_ (grows_modify hm)
    split
    next heq => exact hf old (heq ▸ hold) (h.object hold)
    next => exact h.object hold
  queue r hr := by
    obtain ⟨m, hm'⟩ := h.queue r hr
    exact ⟨m, hm'.mono (grows_modify hm)⟩
  db := h.db

theorem Sound.track (h : s.Sound c) (ht : t.Sound c s) :
    ({ s with objects := s.objects ++ [t] } : Session).Sound c where
  objects t' ht' := by
    refine Tracked.Sound.mono ?_ grows_track
    rcases List.mem_append.mp ht' with hin | hin
    · exact h.objects t' hin
    · exact List.mem_singleton.mp hin ▸ ht
  queue r hr := by
    obtain ⟨m, hm⟩ := h.queue r hr
    exact ⟨m, hm.mono grows_track⟩
  db := h.db

theorem Sound.setDb (h : s.Sound c) {db : Database} (hdb : db.Fits) : ({ s with db } : Session).Sound c where
  objects t ht := (h.objects t ht).mono grows_same
  queue := h.queue
  db := hdb

end Session

/-! ## Work that ends well -/

namespace Work

variable {α β : Type}

/-- Work that leaves a sound session with a result as told, or ends with a failure of the storage. -/
def Runs (c : Catalog) (s : Session) (x : Work α) (Q : α → Session → Prop) : Prop :=
  match x.runOn s with
  | (.ok a, t) => t.Sound c ∧ s.Grows t ∧ Q a t
  | (.error e, _) => e.OfStorage

variable {x : Work α} {f : α → Work β} {Q R : α → Session → Prop} {P : β → Session → Prop} {a : α} {e : Failure}

theorem runs_of_run {s' : Session} (h : x.runOn s = (.ok a, s')) (hs : s'.Sound c) (hg : s.Grows s') (hq : Q a s') :
    Runs c s x Q := by
  rw [Runs, h]
  exact ⟨hs, hg, hq⟩

theorem runs_pure (hs : s.Sound c) (hq : Q a s) : Runs c s (pure a) Q :=
  runs_of_run Act.runOn_pure hs (.refl s) hq

theorem runs_throw (h : e.OfStorage) : Runs c s (throw e : Work α) Q := h

theorem runs_modify {f : Session → Session} (hs : (f s).Sound c) (hg : s.Grows (f s)) :
    Runs c s (modify f) fun _ t => t = f s :=
  runs_of_run (x := modify f) (a := ⟨⟩) rfl hs hg rfl

theorem runs_set {s' : Session} (hs : s'.Sound c) (hg : s.Grows s') :
    Runs c s (set s') fun _ t => t = s' :=
  runs_of_run (x := set s') (a := ⟨⟩) rfl hs hg rfl

theorem runs_lift {P : α → Prop} {outcome : Except Failure α} (hs : s.Sound c) (h : Handed P outcome) :
    Runs c s (liftM outcome : Work α) fun a t => P a ∧ t = s := by
  cases outcome with
  | ok a => exact runs_of_run Act.runOn_liftM hs (.refl s) ⟨h, rfl⟩
  | error e => exact h

theorem Runs.mono (h : Runs c s x Q) (hq : ∀ a t, t.Sound c → s.Grows t → Q a t → R a t) : Runs c s x R := by
  unfold Runs at h ⊢
  split at h
  · exact ⟨h.1, h.2.1, hq _ _ h.1 h.2.1 h.2.2⟩
  · exact h

theorem Runs.bind (h : Runs c s x Q) (hf : ∀ a t, t.Sound c → s.Grows t → Q a t → Runs c t (f a) P) :
    Runs c s (x >>= f) P := by
  unfold Runs at h
  rw [Runs, Act.runOn_bind]
  split at h
  next a t hrun =>
    rw [hrun]
    have hnext := hf a t h.1 h.2.1 h.2.2
    unfold Runs at hnext
    dsimp only
    split at hnext
    next b t' hrun' =>
      rw [hrun']
      exact ⟨hnext.1, h.2.1.trans hnext.2.1, hnext.2.2⟩
    next hrun' =>
      rw [hrun']
      exact hnext
  next hrun =>
    rw [hrun]
    exact h

theorem Runs.given {outcome : Except Failure α} (h : outcome = .ok a) (hf : Runs c s (f a) P) :
    Runs c s (liftM outcome >>= f) P := by
  rw [Runs, Act.runOn_bind, Act.runOn_liftM, h]
  exact hf

theorem Runs.get {f : Session → Work β} (hf : Runs c s (f s) P) : Runs c s (MonadState.get >>= f) P := by
  rw [Runs, Act.runOn_bind, Act.runOn_get]
  exact hf

theorem Runs.map {g : α → β} (h : Runs c s x fun a t => P (g a) t) : Runs c s (g <$> x) P := by
  rw [map_eq_pure_bind]
  exact h.bind fun a t ht _ hq => runs_pure ht hq

/-! ### Loops -/

theorem runs_foldlM {g : β → α → Work β} {xs : List α} {b : β} (hs : s.Sound c) (hb : P b s)
    (h : ∀ x ∈ xs, ∀ b t, t.Sound c → s.Grows t → P b t → Runs c t (g b x) P) :
    Runs c s (xs.foldlM g b) P := by
  induction xs generalizing s b with
  | nil => exact runs_pure hs hb
  | cons x xs ih =>
      rw [List.foldlM_cons]
      refine (h x List.mem_cons_self b s hs (.refl s) hb).bind fun b' t ht hg hb' => ?_
      exact ih ht hb' fun y hy b t' ht' hg' => h y (List.mem_cons_of_mem _ hy) b t' ht' (hg.trans hg')

theorem runs_mapM {xs : List α} (hs : s.Sound c) (hmono : ∀ b t t', t.Grows t' → P b t → P b t')
    (h : ∀ x ∈ xs, ∀ t, t.Sound c → s.Grows t → Runs c t (f x) P) :
    Runs c s (xs.mapM f) fun bs t => ∀ b ∈ bs, P b t := by
  induction xs generalizing s with
  | nil => exact runs_pure hs nofun
  | cons x xs ih =>
      rw [List.mapM_cons]
      refine (h x List.mem_cons_self s hs (.refl s)).bind fun b t ht hg hb => ?_
      refine (ih ht fun y hy t' ht' hg' => h y (List.mem_cons_of_mem _ hy) t' ht' (hg.trans hg')).bind
        fun bs t' ht' hg' hbs => ?_
      exact runs_pure ht' (List.forall_mem_cons.mpr ⟨hmono b t t' hg' hb, hbs⟩)

theorem runs_forIn {xs : List α} {g : α → PUnit → Work (ForInStep PUnit)} (hs : s.Sound c)
    (h : ∀ x ∈ xs, ∀ t, t.Sound c → s.Grows t → Runs c t (g x ⟨⟩) fun step _ => step = .yield ⟨⟩) :
    Runs c s (forIn xs PUnit.unit g) fun _ _ => True := by
  induction xs generalizing s with
  | nil => exact runs_pure hs trivial
  | cons x xs ih =>
      rw [List.forIn_cons]
      refine (h x List.mem_cons_self s hs (.refl s)).bind fun step t ht hg hstep => ?_
      subst hstep
      exact ih ht fun y hy t' ht' hg' => h y (List.mem_cons_of_mem _ hy) t' ht' (hg.trans hg')

theorem Runs.round (h : Runs c s x Q) :
    Runs c s (do let _ ← x; pure (ForInStep.yield PUnit.unit)) fun step _ => step = .yield ⟨⟩ :=
  h.bind fun _ _ ht _ _ => runs_pure ht rfl

theorem runs_next (hs : s.Sound c) :
    Runs c s (pure (ForInStep.yield PUnit.unit)) fun step _ => step = .yield ⟨⟩ :=
  runs_pure hs rfl

/-! ### Objects -/

theorem runs_object (hs : s.Sound c) (hr : s.Has ref m) :
    Runs c s (object ref) fun t s' => s' = s ∧ s.objects[ref]? = some t ∧ t.model = m := by
  obtain ⟨t, ht, rfl⟩ := hr
  have hrun : (object ref).runOn s = (.ok t, s) := by
    rw [object]
    refine (Act.runOn_bind_of Act.runOn_get).trans ?_
    rw [ht]
    rfl
  exact runs_of_run hrun hs (.refl s) ⟨rfl, ht, rfl⟩

theorem runs_modifyObject (hs : s.Sound c) {f : Tracked → Tracked} (hm : ∀ t, (f t).model = t.model)
    (hf : ∀ t, s.objects[ref]? = some t → t.Sound c s → (f t).Sound c s) :
    Runs c s (modifyObject ref f) fun _ t => t = { s with objects := s.objects.modify ref f } :=
  runs_modify (hs.modify hm hf) (Session.grows_modify hm)

theorem runs_setValue (hs : s.Sound c) {column : String} {v : Value} (hv : v.Fits) :
    Runs c s (setValue ref column v) fun _ _ => True := by
  have hset : ∀ t, s.objects[ref]? = some t → t.Sound c s →
      Tracked.Sound c s { t with values := Object.set column v t.values } := by
    refine fun t _ ht => ⟨ht.model, ht.staged, fun kv hkv => ?_, ht.ends⟩
    rcases Object.mem_of_mem_set hkv with rfl | hkv
    · exact hv
    · exact ht.values kv hkv
  refine Runs.mono (runs_modifyObject hs ?_ hset) fun _ _ _ _ _ => trivial
  exact fun _ => rfl

theorem runs_track (hs : s.Sound c) (ht : t.Sound c s) :
    Runs c s (track t) fun ref s' => s'.Has ref t.model := by
  have hrun : (track t).runOn s = (.ok s.objects.length, { s with objects := s.objects ++ [t] }) := rfl
  exact runs_of_run hrun (hs.track ht) Session.grows_track ⟨t, List.getElem?_concat_length .., rfl⟩

theorem runs_ofRow (hc : c.Sound) (hs : s.Sound c) (hm : c.Has m) (row : Row) :
    Runs c s (ofRow m row) fun ref s' => s'.Has ref m := by
  refine Runs.get ?_
  dsimp only
  split
  next ref hfound =>
    obtain ⟨hlt, htest, _⟩ := List.findIdx?_eq_some_iff_getElem.mp hfound
    simp only [Bool.and_eq_true, beq_iff_eq] at htest
    have hobject := List.getElem?_eq_getElem hlt
    exact runs_pure hs ⟨_, hobject, hc.unique (hs.object hobject).model hm htest.1.2⟩
  next =>
    refine runs_track hs ⟨hm, ⟨by simp, by simp⟩, nofun, fun _ _ _ he => ?_⟩
    cases he

theorem runs_rowOf (hs : s.Sound c) (hr : s.Has ref m) :
    Runs c s (rowOf ref) fun row s' => s' = s ∧ ∀ r, row = some r → r.Fits := by
  refine (runs_object hs hr).bind fun t _ _ _ ht => ?_
  obtain ⟨rfl, -, -⟩ := ht
  refine Runs.get ?_
  exact runs_pure hs ⟨rfl, fun _ => hs.db.row?⟩

theorem runs_valueOf (hs : s.Sound c) (hr : s.Has ref m) (column : Column) :
    Runs c s (valueOf ref column) fun v s' => s' = s ∧ v.Fits := by
  refine (runs_object hs hr).bind fun t _ _ _ ht => ?_
  obtain ⟨rfl, ht, -⟩ := ht
  dsimp only
  split
  next v hv => exact runs_pure hs ⟨rfl, (hs.object ht).values _ (Object.mem_of_get? hv)⟩
  next =>
    have hread : ∀ row : Option Row, (∀ r, row = some r → r.Fits) →
        Value.Fits ((row.map fun r => column.kind.read (r.get column.name)).getD .null) := by
      intro row hrow
      cases row with
      | none => trivial
      | some r => exact ColumnKind.read_fits ((hrow r rfl).get column.name)
    split
    · refine (runs_rowOf hs hr).bind fun row _ _ _ hrow => ?_
      obtain ⟨rfl, hrow⟩ := hrow
      exact runs_pure hs ⟨rfl, hread row hrow⟩
    · exact runs_pure hs ⟨rfl, trivial⟩

theorem runs_refsWhere (hs : s.Sound c) (test : Tracked → Bool) :
    Runs c s (refsWhere test) fun refs s' => s' = s ∧
      ∀ ref ∈ refs, ∃ t, s.objects[ref]? = some t ∧ test t = true := by
  refine Runs.get ?_
  refine runs_pure hs ⟨rfl, fun ref hr => ?_⟩
  have htest := (List.mem_filter.mp hr).2
  cases hobject : s.objects[ref]? with
  | none => rw [hobject] at htest; cases htest
  | some t => rw [hobject] at htest; exact ⟨t, rfl, htest⟩

end Work

end RecordGraph
