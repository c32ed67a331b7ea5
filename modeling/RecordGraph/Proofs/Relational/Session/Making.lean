import RecordGraph.Proofs.Operation.Avoiding
import RecordGraph.Proofs.Relational.Building
import RecordGraph.Proofs.Relational.Uniqueness

/-!
# New objects of a session

For a row without relations a session gets an object that is linked to nothing, and on which what the columns take
the given values as is set. When it is attached, it is to be written, and nothing else with it.
-/

namespace RecordGraph

open Catalog

/-! ## One object at a time -/

/-- Of the objects of a session, only one differs in another session. -/
structure Session.Alters (s s' : Session) (ref : Ref) (t : Tracked) : Prop where
  here : s'.objects[ref]? = some t
  elsewhere : ∀ other, other ≠ ref → s'.objects[other]? = s.objects[other]?

namespace Session

variable {s s' s'' : Session} {ref : Ref} {t t' : Tracked}

theorem Alters.trans (h : s.Alters s' ref t) (h' : s'.Alters s'' ref t') : s.Alters s'' ref t' where
  here := h'.here
  elsewhere other hne := (h'.elsewhere other hne).trans (h.elsewhere other hne)

/-- An object of the other session is the one that differs, or it was there before. -/
theorem Alters.object (h : s.Alters s' ref t) {other : Ref} (ht' : s'.objects[other]? = some t') :
    other = ref ∧ t' = t ∨ other ≠ ref ∧ s.objects[other]? = some t' := by
  by_cases hother : other = ref
  · subst hother
    exact .inl ⟨rfl, (Option.some.inj (h.here.symm.trans ht')).symm⟩
  · exact .inr ⟨hother, (h.elsewhere other hother).symm.trans ht'⟩

theorem alters_track {db : Database} {queue : List Ref} :
    s.Alters { db, objects := s.objects ++ [t], queue } s.objects.length t where
  here := List.getElem?_concat_length ..
  elsewhere other hne := by
    rcases Nat.lt_or_gt_of_ne hne with hlt | hgt
    · exact List.getElem?_append_left hlt
    · show (s.objects ++ [t])[other]? = _
      rw [List.getElem?_eq_none (by simp; omega), List.getElem?_eq_none (Nat.le_of_lt hgt)]

theorem alters_modify {db : Database} {queue : List Ref} {f : Tracked → Tracked} (ht : s.objects[ref]? = some t) :
    s.Alters { db, objects := s.objects.modify ref f, queue } ref (f t) where
  here := by
    show (s.objects.modify ref f)[ref]? = _
    rw [List.getElem?_modify_eq, ht]
    rfl
  elsewhere other hne := List.getElem?_modify_ne _ _ (Ne.symm hne)

end Session

namespace Work

variable {c : Catalog} {m m' : Model} {ref : Ref} {row : Object} {rows : List Object} {s s' : Session} {t : Tracked}

/-! ## New objects -/

/-- The values are what the columns take those of some members as. -/
structure Assigned (m : Model) (members values : Object) : Prop where
  absent : ∀ name ∉ members.keys, values.get name = .null
  taken : ∀ kv ∈ members, ∀ column, m.column? kv.1 = some column → column.coerce kv.2 = .ok (values.get kv.1)

theorem Assigned.coerced {values : Object} {column : Column} (h : Assigned m row values)
    (hcolumn : m.column? column.name = some column) :
    column.coerce (row.get column.name) = .ok (values.get column.name) := by
  cases hget : Object.get? column.name row with
  | some v =>
      have htaken := h.taken _ (Object.mem_of_get? hget) column hcolumn
      rwa [Object.get, hget]
  | none =>
      rw [h.absent _ (Object.get?_eq_none_iff.mp hget), Object.get, hget, Option.getD_none, Column.coerce]
      cases column.kind <;> rfl

theorem coerce_spares {column : Column} {v : Value} : Act.Spares Failure.OfUniqueness (column.coerce v) := by
  unfold Column.coerce
  split
  · trivial
  · rintro ⟨e, he, _⟩
    cases he

/-- The members of a payload without relations are set on a new object, unless one cannot be taken. -/
theorem setWithin_assigns {levels : Nat} (ht : s.objects[ref]? = some { model := m })
    (hnodup : row.keys.Nodup) (hplain : ∀ kv ∈ row, m.link? kv.1 = none) :
    (setWithin c levels ref (.object row)).Avoids Failure.OfUniqueness s fun _ s' =>
      ∃ values, s.Alters s' ref { model := m, values } ∧ s'.db = s.db ∧ s'.queue = s.queue ∧ Assigned m row values := by
  cases levels with
  | zero =>
      cases row with
      | nil => exact Act.avoids_pure ⟨[], ⟨ht, fun _ _ => rfl⟩, rfl, rfl, ⟨fun _ _ => rfl, nofun⟩⟩
      | cons kv rest => exact Act.avoids_throw id
  | succ levels =>
      rw [setWithin]
      refine .after (object_run ht) ?_
      -- What was set so far is what the columns take the members so far as; no later member has a key of theirs.
      let I (rest : Object) (s' : Session) : Prop := ∃ done values, row = done ++ rest ∧
        s.Alters s' ref { model := m, values } ∧ s'.db = s.db ∧ s'.queue = s.queue ∧ Assigned m done values
      have hstart : I row s := ⟨[], [], rfl, ⟨ht, fun _ _ => rfl⟩, rfl, rfl, ⟨fun _ _ => rfl, nofun⟩⟩
      refine (Act.avoids_forIn (I := I) (fun kv rest u hu => ?_) hstart).bind fun _ u hu => ?_
      · obtain ⟨key, v⟩ := kv
        obtain ⟨done, values, rfl, halters, hdb, hqueue, hassigned⟩ := hu
        have hlink : m.link? key = none := hplain (key, v) (by simp)
        have hkey : key ∉ Object.keys done := by
          rw [Object.keys, List.map_append, List.nodup_append] at hnodup
          exact fun hin => hnodup.2.2 key hin key (by simp) rfl
        dsimp only
        rw [hlink]
        cases hcolumn : m.column? key with
        | none =>
            refine Act.avoids_throw ?_
            rintro ⟨e, he, _⟩
            cases he
        | some column =>
            refine (Act.avoids_lift coerce_spares).bind fun w u' hw => ?_
            obtain ⟨hw, rfl⟩ := hw
            refine .after (t := { u' with objects := u'.objects.modify ref fun t =>
              { t with values := Object.set key w t.values } }) rfl (Act.avoids_pure ⟨rfl, ?_⟩)
            refine ⟨done ++ [(key, v)], Object.set key w values, by simp,
              halters.trans (Session.alters_modify halters.here), hdb, hqueue, fun name hname => ?_,
              fun kv hkv own hown => ?_⟩
            · simp only [Object.keys, List.map_append, List.mem_append, not_or, List.map_cons, List.map_nil,
                List.mem_singleton] at hname
              rw [Object.get, Object.get?_set_of_ne (Ne.symm hname.2)]
              exact hassigned.absent name hname.1
            · rcases List.mem_append.mp hkv with hkv | hkv
              · have hne : kv.1 ≠ key := fun he => hkey (he ▸ List.mem_map_of_mem hkv)
                rw [Object.get, Object.get?_set_of_ne (Ne.symm hne)]
                exact hassigned.taken kv hkv own hown
              · rw [List.mem_singleton] at hkv
                subst hkv
                cases hown.symm.trans hcolumn
                rw [Object.get, Object.get?_set_self]
                exact hw
      · obtain ⟨done, values, hdone, halters, hdb, hqueue, hassigned⟩ := hu
        rw [List.append_nil] at hdone
        exact Act.avoids_pure ⟨values, halters, hdb, hqueue, hdone ▸ hassigned⟩

/-- A new object, not yet to be written, of what some row gives. -/
def Built (m : Model) (row : Object) (t : Tracked) : Prop :=
  ∃ values, t = { model := m, stage := t.stage, values } ∧ Assigned m row values

/-- New objects that stand for rows, in order: some not yet to be written, others to be written. All other objects
are rows of the database to which nothing is to be done. -/
structure Builds (m : Model) (s : Session) (made queued : List (Ref × Object)) : Prop where
  fresh : ∀ p ∈ made, ∃ t, s.objects[p.1]? = some t ∧ t.stage = .fresh ∧ Built m p.2 t
  pending : ∀ p ∈ queued, ∃ t, s.objects[p.1]? = some t ∧ t.stage = .pending ∧ Built m p.2 t
  known : ∀ (ref : Ref) (t : Tracked), s.objects[ref]? = some t →
    t.ends = [] ∧ (ref ∈ (made ++ queued).map Prod.fst ∨ t.stage = .stored ∧ t.values = [])
  distinct : ((made ++ queued).map Prod.fst).Nodup

variable {made queued : List (Ref × Object)}

theorem Built.ends (h : Built m row t) : t.ends = [] := by
  obtain ⟨values, ht, _⟩ := h
  rw [ht]

theorem Built.model (h : Built m row t) : t.model = m := by
  obtain ⟨values, ht, _⟩ := h
  rw [ht]

theorem Builds.add (h : Builds m s made []) (hnew : s.objects[ref]? = none) (halters : s.Alters s' ref t)
    (hstage : t.stage = .fresh) (ht : Built m row t) : Builds m s' (made ++ [(ref, row)]) [] where
  fresh p hp := by
    rcases List.mem_append.mp hp with hp | hp
    · obtain ⟨t', ht', hrest⟩ := h.fresh p hp
      have hne : p.1 ≠ ref := fun he => by rw [he, hnew] at ht'; cases ht'
      exact ⟨t', (halters.elsewhere p.1 hne).trans ht', hrest⟩
    · rw [List.mem_singleton.mp hp]
      exact ⟨t, halters.here, hstage, ht⟩
  pending := nofun
  known other t' ht' := by
    by_cases hne : other = ref
    · subst hne
      cases halters.here.symm.trans ht'
      exact ⟨ht.ends, .inl (by simp)⟩
    · obtain ⟨hends, hin⟩ := h.known other t' ((halters.elsewhere other hne).symm.trans ht')
      refine ⟨hends, hin.imp_left fun hin => ?_⟩
      rw [List.append_nil] at hin ⊢
      exact List.map_append ▸ List.mem_append_left _ hin
  distinct := by
    have hfresh := h.distinct
    rw [List.append_nil] at hfresh ⊢
    rw [List.map_append, List.nodup_append]
    refine ⟨hfresh, List.nodup_singleton _, fun other hother ref' href' => ?_⟩
    rw [List.map_cons, List.map_nil, List.mem_singleton] at href'
    subst href'
    rintro rfl
    obtain ⟨p, hp, rfl⟩ := List.mem_map.mp hother
    obtain ⟨t', ht', _⟩ := h.fresh p hp
    rw [hnew] at ht'
    cases ht'

/-- To create an object of a row without relations. -/
theorem create_builds (h : Builds m s made []) (hnodup : row.keys.Nodup)
    (hplain : ∀ kv ∈ row, m.link? kv.1 = none) :
    (create c m row).Avoids Failure.OfUniqueness s fun ref s' =>
      Builds m s' (made ++ [(ref, row)]) [] ∧ s'.db = s.db ∧ s'.queue = s.queue := by
  rw [create]
  refine .after track_run ?_
  have halters : s.Alters { s with objects := s.objects ++ [{ model := m }] } s.objects.length { model := m } :=
    Session.alters_track
  refine (setWithin_assigns halters.here hnodup hplain).bind fun _ s' hs' => Act.avoids_pure ?_
  obtain ⟨values, halters', hdb, hqueue, hassigned⟩ := hs'
  exact ⟨h.add (List.getElem?_eq_none (Nat.le_refl _)) (halters.trans halters') rfl ⟨values, rfl, hassigned⟩, hdb,
    hqueue⟩

/-! ## Objects to be written -/

theorem attachAll_nil {levels : Nat} : (attachAll levels []).runOn s = (.ok (), s) := by
  cases levels <;> rfl

/-- A new object that is linked to nothing is to be written, and nothing else with it. -/
theorem attach_run (ht : s.objects[ref]? = some t) (hstage : t.stage = .fresh) (hends : t.ends = []) :
    (attach ref).runOn s = (.ok (), { s with
      objects := s.objects.modify ref fun t => { t with stage := .pending }, queue := s.queue ++ [ref] }) := by
  rw [attach]
  refine (Act.runOn_bind_of Act.runOn_get).trans ?_
  rw [attachAll]
  refine (Act.runOn_bind_of (a := ⟨⟩) (t := { s with
    objects := s.objects.modify ref fun t => { t with stage := .pending }, queue := s.queue ++ [ref] }) ?_).trans rfl
  rw [List.forIn_cons]
  refine (Act.runOn_bind_of (a := .yield ⟨⟩) (t := { s with
    objects := s.objects.modify ref fun t => { t with stage := .pending }, queue := s.queue ++ [ref] }) ?_).trans rfl
  refine (Act.runOn_bind_of (object_run ht)).trans ?_
  rw [hstage, hends]
  refine (Act.runOn_bind_of (t := { s with objects := s.objects.modify ref fun t => { t with stage := .pending } })
    (a := PUnit.unit) rfl).trans ?_
  refine (Act.runOn_bind_of (t := { s with
    objects := s.objects.modify ref fun t => { t with stage := .pending }, queue := s.queue ++ [ref] })
    (a := PUnit.unit) rfl).trans ?_
  refine (Act.runOn_bind_of (Act.runOn_forIn fun l _ => ?_)).trans rfl
  exact (Act.runOn_bind_of attachAll_nil).trans rfl

theorem Builds.attach (h : Builds m s ((ref, row) :: made) queued) (ht : s.objects[ref]? = some t)
    (halters : s.Alters s' ref { t with stage := .pending }) : Builds m s' made (queued ++ [(ref, row)]) := by
  have hdistinct := h.distinct
  rw [List.cons_append, List.map_cons, List.nodup_cons] at hdistinct
  have hother {p : Ref × Object} (hp : p ∈ made ++ queued) : s'.objects[p.1]? = s.objects[p.1]? :=
    halters.elsewhere p.1 fun he => hdistinct.1 (List.mem_map.mpr ⟨p, hp, he⟩)
  refine ⟨fun p hp => ?_, fun p hp => ?_, fun other t' ht' => ?_, ?_⟩
  · rw [hother (List.mem_append_left _ hp)]
    exact h.fresh p (List.mem_cons_of_mem _ hp)
  · rcases List.mem_append.mp hp with hp | hp
    · rw [hother (List.mem_append_right _ hp)]
      exact h.pending p hp
    · rw [List.mem_singleton.mp hp]
      obtain ⟨t', ht', _, values, hbuilt, hassigned⟩ := h.fresh (ref, row) List.mem_cons_self
      cases ht.symm.trans ht'
      exact ⟨_, halters.here, rfl, values, by rw [hbuilt], hassigned⟩
  · by_cases hne : other = ref
    · subst hne
      cases halters.here.symm.trans ht'
      exact ⟨(h.known other t ht).1, .inl (by simp)⟩
    · obtain ⟨hends, hin⟩ := h.known other t' ((halters.elsewhere other hne).symm.trans ht')
      refine ⟨hends, hin.imp_left fun hin => ?_⟩
      simpa [hne, or_assoc] using hin
  · refine (List.Perm.nodup_iff ?_).mp h.distinct
    rw [← List.append_assoc]
    exact ((List.perm_append_singleton ..).symm).map _

end Work

end RecordGraph
