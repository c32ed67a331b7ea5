import RecordGraph.Proofs.Relational.Answering
import RecordGraph.Proofs.Relational.Session.Flushing

/-!
# Linking in sound sessions

Looking rows up and linking objects leaves a session sound, as long as a filter that is looked up by
has operands that an engine can be handed, and as long as a link that is cut can be.
-/

namespace RecordGraph

variable {c : Catalog} {s : Session} {ref : Ref} {m target : Model} {l : Link} {t : Tracked} {e : Ends}

theorem Tracked.lookup_setEnds {name : String} :
    (t.setEnds l e).ends.lookup name = if name == l.name then some e else t.ends.lookup name := by
  rw [setEnds, List.lookup_cons]
  cases hname : name == l.name with
  | true => rfl
  | false =>
      have hne : name ≠ l.name := by simpa using hname
      rw [if_neg Bool.false_ne_true]
      dsimp only
      generalize t.ends = ends
      induction ends with
      | nil => rfl
      | cons entry rest ih =>
          rw [List.filter_cons, List.lookup_cons]
          by_cases hentry : entry.1 = l.name
          · rw [if_neg (by simpa using hentry), ih, hentry, hname]
          · rw [if_pos (by simpa using hentry), List.lookup_cons, ih]

theorem Tracked.Sound.setEnds (hc : c.Sound) (ht : t.Sound c s) (hl : l ∈ t.model.links)
    (he : e.Sound c s t.model l) : (t.setEnds l e).Sound c s where
  model := ht.model
  staged := ht.staged
  values := ht.values
  ends l' hl' e' he' := by
    rw [lookup_setEnds] at he'
    split at he'
    next hname =>
      cases he'
      obtain rfl := hc.link_unique ht.model hl' hl (by simpa using hname)
      exact he
    next => exact ht.ends l' hl' e' he'

/-- What is at the other end of a link is read from the database and so is not to be cut. -/
theorem Ends.Sound.read {refs : List Ref} (h : ∀ target, c.named l.target = .ok target → ∀ r ∈ refs, s.Has r target) :
    Ends.Sound c s m l ⟨some refs, refs⟩ where
  now := h
  before := h
  uncut target _ := by
    refine .inr ?_
    split
    next => exact fun hnow => congrArg some hnow
    next => exact List.Subset.refl refs
    next => trivial

namespace Work

/-! ## Looking up -/

theorem runs_findOne {filter : Value} (hc : c.Sound) (hs : s.Sound c) (hm : c.Has m) (h : c.Answers m filter) :
    Runs c s (findOne c m filter) fun found s' => ∀ ref, found = some ref → s'.Has ref m := by
  refine (runs_lift hs h).bind fun condition s' _ _ hcondition => ?_
  obtain ⟨hbind, rfl⟩ := hcondition
  refine (runs_flush hc hs).bind fun _ s hs _ _ => ?_
  refine (runs_lift hs hbind.bind).bind fun _ s' _ _ hbound => ?_
  obtain ⟨-, rfl⟩ := hbound
  refine Runs.get ?_
  split
  next => exact runs_pure hs nofun
  next row _ _ =>
    refine Runs.map ((runs_ofRow hc hs hm row).mono fun ref s' _ _ href r hr => ?_)
    cases hr
    exact href

theorem runs_storedEnds (hc : c.Sound) (hs : s.Sound c) (hr : s.Has ref m) (hl : l ∈ m.links) :
    Runs c s (storedEnds c ref l) fun refs s' =>
      ∀ target, c.named l.target = .ok target → ∀ r ∈ refs, s'.Has r target := by
  obtain ⟨target, hnamed, htarget⟩ := hc.target_of (hs.model hr) hl
  refine (runs_rowOf hs hr).bind fun row s' _ _ hrow => ?_
  obtain ⟨rfl, -⟩ := hrow
  cases row with
  | none => exact runs_pure hs fun _ _ _ hr => absurd hr List.not_mem_nil
  | some row =>
      refine Runs.given hnamed ?_
      refine Runs.get ?_
      refine (runs_mapM hs (fun _ _ _ hg h => h.mono hg) fun row _ s hs _ => runs_ofRow hc hs htarget row).mono
        fun refs s' _ _ hrefs target' hnamed' => ?_
      cases hnamed.symm.trans hnamed'
      exact hrefs

theorem runs_keepEnds (hc : c.Sound) (hs : s.Sound c) (hr : s.Has ref m) (hl : l ∈ m.links)
    (he : e.Sound c s m l) :
    Runs c s (modifyObject ref fun t => t.setEnds l e) fun _ s' =>
      ∀ t e', s'.objects[ref]? = some t → t.ends.lookup l.name = some e' → e' = e := by
  have hset : ∀ t, s.objects[ref]? = some t → t.Sound c s → (t.setEnds l e).Sound c s := by
    intro t ht hsound
    obtain rfl := hr.model_eq ht
    exact hsound.setEnds hc hl he
  refine (runs_modifyObject hs ?_ hset).mono fun _ s' _ _ hmod t e' ht hlook => ?_
  · exact fun _ => rfl
  · obtain ⟨old, -, rfl⟩ : ∃ old, s.objects[ref]? = some old ∧ old.setEnds l e = t := by
      rw [hmod, List.getElem?_modify_eq] at ht
      exact Option.map_eq_some_iff.mp ht
    rw [Tracked.lookup_setEnds, if_pos (beq_self_eq_true l.name)] at hlook
    exact (Option.some.inj hlook).symm

/-- The objects at the other end of a link; they are those that are kept of it, if any are. -/
theorem runs_endsOf (hc : c.Sound) (hs : s.Sound c) (hr : s.Has ref m) (hl : l ∈ m.links) :
    Runs c s (endsOf c ref l) fun refs s' =>
      (∀ target, c.named l.target = .ok target → ∀ r ∈ refs, s'.Has r target) ∧
      ∀ t e, s'.objects[ref]? = some t → t.ends.lookup l.name = some e → e.now = refs := by
  refine (runs_object hs hr).bind fun t s' _ _ ht => ?_
  obtain ⟨rfl, ht, rfl⟩ := ht
  split
  next e hlook =>
    refine runs_pure hs ⟨((hs.object ht).ends l hl e hlook).now, fun t' e' ht' hlook' => ?_⟩
    cases ht.symm.trans ht'
    cases hlook.symm.trans hlook'
    rfl
  next hlook =>
    split
    · refine (runs_flush hc hs).bind fun _ s hs hg _ => ?_
      refine (runs_storedEnds hc hs (hr.mono hg) hl).bind fun found s hs hg' hfound => ?_
      have hfound' : ∀ target, c.named l.target = .ok target →
          ∀ r ∈ (if l.isList then found else found.take 1), s.Has r target := by
        intro target hnamed r hr
        split at hr
        · exact hfound target hnamed r hr
        · exact hfound target hnamed r (List.mem_of_mem_take hr)
      refine (runs_keepEnds hc hs ((hr.mono hg).mono hg') hl (Ends.Sound.read hfound')).bind
        fun _ s' hs' hg'' hkept => ?_
      refine runs_pure hs' ⟨fun target hnamed r hr => (hfound' target hnamed r hr).mono hg'', fun t e ht hlook => ?_⟩
      rw [hkept t e ht hlook]
    · refine runs_pure hs ⟨fun _ _ _ hr => absurd hr List.not_mem_nil, fun t' e' ht' hlook' => ?_⟩
      cases ht.symm.trans ht'
      rw [hlook] at hlook'
      cases hlook'

/-! ## Linking -/

theorem runs_attachAll (hc : c.Sound) (hs : s.Sound c) {levels : Nat} {refs : List Ref}
    (h : ∀ ref ∈ refs, ∃ m, s.Has ref m) : Runs c s (attachAll levels refs) fun _ _ => True := by
  induction levels generalizing s refs with
  | zero => exact runs_pure hs trivial
  | succ levels ih =>
      rw [attachAll]
      refine Runs.bind (runs_forIn hs fun ref hr s hs hg => ?_) fun _ _ ht _ _ => runs_pure ht trivial
      obtain ⟨m, hm⟩ := h ref hr
      refine (runs_object hs (hm.mono hg)).bind fun t s' _ _ ht => ?_
      obtain ⟨rfl, ht, -⟩ := ht
      have htracked := hs.object ht
      split
      · have hpending : ∀ t, s'.objects[ref]? = some t → t.Sound c s' →
            Tracked.Sound c s' { t with stage := .pending } :=
          fun t _ ht => ⟨ht.model, ⟨by simp, by simp⟩, ht.values, ht.ends⟩
        refine (runs_modifyObject hs ?_ hpending).bind fun _ s hs hg' _ => ?_
        · exact fun _ => rfl
        have hqueued : Session.Sound { s with queue := s.queue ++ [ref] } c := by
          refine ⟨fun t ht => (hs.objects t ht).mono Session.grows_same, fun r hr => ?_, hs.db⟩
          rcases List.mem_append.mp hr with hr | hr
          · exact hs.queue r hr
          · obtain rfl := List.mem_singleton.mp hr
            exact ⟨m, Session.Has.mono ((hm.mono hg).mono hg') Session.grows_same⟩
        refine (runs_modify hqueued Session.grows_same).bind fun _ s' hs' _ hmod => ?_
        refine Runs.round (runs_forIn hs' fun l hl s'' hs'' hg'' => Runs.round (ih hs'' fun r hr => ?_))
        cases hlook : t.ends.lookup l.name with
        | none => rw [hlook] at hr; cases hr
        | some e =>
            rw [hlook] at hr
            obtain ⟨target, hnamed, _⟩ := hc.target_of htracked.model hl
            have hends := (htracked.ends l hl e hlook).now target hnamed r hr
            subst hmod
            exact ⟨target, (hends.mono hg').mono hg''⟩
      · exact runs_next hs

theorem runs_attach (hc : c.Sound) (hs : s.Sound c) (hr : s.Has ref m) :
    Runs c s (attach ref) fun _ _ => True := by
  refine Runs.get ?_
  exact runs_attachAll hc hs fun r hr' => List.mem_singleton.mp hr' ▸ ⟨m, hr⟩

/-- What is put at the other end of a link leaves no object without a key that it needs. -/
def Leaves (m target : Model) (l : Link) (t : Tracked) (now : List Ref) : Prop :=
  l.Loose m target ∨ match l.kind with
    | .holds _ => now ≠ []
    | .heldBy .. => ∀ e, t.ends.lookup l.name = some e → e.before.getD [] ⊆ now
    | .through _ => True

theorem runs_setEnds {now : List Ref} (hc : c.Sound) (hs : s.Sound c) (hr : s.Has ref m) (hl : l ∈ m.links)
    (hnamed : c.named l.target = .ok target) (hnow : ∀ r ∈ now, s.Has r target)
    (h : ∀ t, s.objects[ref]? = some t → Leaves m target l t now) :
    Runs c s (setEnds ref l now) fun _ _ => True := by
  refine (runs_object hs hr).bind fun t s' _ _ ht => ?_
  obtain ⟨rfl, ht, rfl⟩ := ht
  refine Runs.bind (runs_keepEnds hc hs hr hl ?_) fun _ s hs hg _ => ?_
  · have hleaves := h t ht
    unfold Leaves at hleaves
    have hknown := (hs.object ht).ends l hl
    cases hlook : t.ends.lookup l.name with
    | some e =>
        rw [hlook] at hleaves hknown
        refine ⟨fun target' hnamed' => ?_, (hknown e rfl).before, fun target' hnamed' => ?_⟩ <;>
          cases hnamed.symm.trans hnamed'
        · exact hnow
        · refine hleaves.imp_right fun hleaves => ?_
          cases hk : l.kind <;> rw [hk] at hleaves
          case holds => exact fun hnone => absurd hnone hleaves
          case heldBy => exact hleaves e rfl
          case through => trivial
    | none =>
        refine ⟨fun target' hnamed' => ?_, fun target' _ r hr => ?_, fun target' hnamed' => ?_⟩
        · cases hnamed.symm.trans hnamed'
          exact hnow
        · cases hk : l.kind <;> rw [hk] at hr <;> exact absurd hr List.not_mem_nil
        · cases hnamed.symm.trans hnamed'
          refine hleaves.imp_right fun hleaves => ?_
          cases hk : l.kind <;> rw [hk] at hleaves
          case holds => exact fun hnone => absurd hnone hleaves
          case heldBy => exact List.nil_subset now
          case through => trivial
  · split
    · refine Runs.bind (runs_forIn hs fun r hr s hs hg' => ?_) fun _ _ ht _ _ => runs_pure ht trivial
      exact Runs.round (runs_attach hc hs (((hnow r hr).mono hg).mono hg'))
    · exact runs_pure hs trivial

theorem runs_linkOne {other : Option Ref} (hc : c.Sound) (hs : s.Sound c) (hr : s.Has ref m) (hl : l ∈ m.links)
    (hnamed : c.named l.target = .ok target) (hlist : l.isList = false)
    (hother : ∀ o, other = some o → s.Has o target) (h : other = none → l.Loose m target) :
    Runs c s (linkOne ref l other) fun _ _ => True := by
  have hleaves : ∀ t, Leaves m target l t other.toList := by
    intro t
    cases other with
    | none => exact .inl (h rfl)
    | some o =>
        have hjoins := hc.joins (hs.model hr) hl hnamed
        unfold Link.Joins at hjoins
        unfold Leaves
        cases hk : l.kind with
        | holds => exact .inr (List.cons_ne_nil o [])
        | heldBy column many =>
            rw [hk] at hjoins
            refine .inl (hjoins.2.2 ?_)
            simpa [Link.isList, hk] using hlist
        | through => exact .inr trivial
  have hset : Runs c s (setEnds ref l other.toList) fun _ _ => True :=
    runs_setEnds hc hs hr hl hnamed (fun r hr' => hother r (by simpa using hr')) fun t _ => hleaves t
  refine (runs_object hs hr).bind fun t s' _ _ ht => ?_
  obtain ⟨rfl, -, -⟩ := ht
  dsimp only
  split
  · split
    · exact runs_throw trivial
    · exact hset
  · exact hset

theorem ensureOptional_handed (hnamed : c.named l.target = .ok target) :
    Handed (fun _ => l.Loose m target) (ensureOptional c m l) := by
  have hguard : ∀ (found : Option Column) (e : Failure), e.OfStorage →
      Handed (fun _ => ∀ holder, found = some holder → holder.isKey = false)
        (if (found.any fun column => !column.nullable || column.isKey) = true then throw e
          else (pure () : Except Failure Unit)) := by
    intro found e he
    split
    next => exact he
    next hany =>
      rintro holder rfl
      simp only [Option.any_some, Bool.or_eq_true, not_or, Bool.not_eq_true] at hany
      exact hany.2
  unfold ensureOptional Link.Loose
  cases l.kind with
  | holds column => exact hguard (m.column? column) _ trivial
  | heldBy column many =>
      rw [hnamed]
      exact hguard (target.column? column) _ trivial
  | through table => trivial

theorem runs_require {filter : Value} (hc : c.Sound) (hs : s.Sound c) (ht : c.Has target)
    (h : c.Answers target filter) :
    Runs c s (require c l target filter) fun ref s' => s'.Has ref target := by
  refine (runs_findOne hc hs ht h).bind fun found s hs _ hfound => ?_
  cases found with
  | some ref => exact runs_pure hs (hfound ref rfl)
  | none => exact runs_throw trivial

/-! ## List relations -/

/-- The rows of a list relation of an object, none of which has been replaced. -/
structure Collection.Of (k : Collection) (ref : Ref) (l : Link) : Prop where
  owner : k.owner = ref
  link : k.link = l
  replaced : k.replaced = none

theorem runs_add {k : Collection} {r : Ref} (hc : c.Sound) (hs : s.Sound c) (hk : k.Of ref l) (hr : s.Has ref m)
    (hl : l ∈ m.links) (hlist : l.isList = true) (hnamed : c.named l.target = .ok target) (hr' : s.Has r target) :
    Runs c s (k.add c r) fun k' _ => k'.Of ref l := by
  obtain ⟨rfl, rfl, hnone⟩ := hk
  unfold Collection.add Collection.refs Collection.put
  rw [hnone]
  refine (runs_endsOf hc hs hr hl).bind fun refs s hs hg hrefs => ?_
  split
  · exact runs_pure hs ⟨rfl, rfl, hnone⟩
  · refine (runs_setEnds hc hs (hr.mono hg) hl hnamed (fun r'' hr'' => ?_) fun t ht => ?_).bind fun _ s hs _ _ => runs_pure hs ⟨rfl, rfl, hnone⟩
    · rcases List.mem_append.mp hr'' with hin | hin
      · exact hrefs.1 target hnamed r'' hin
      · exact List.mem_singleton.mp hin ▸ hr'.mono hg
    · unfold Leaves
      have hmodel := (hr.mono hg).model_eq ht
      subst hmodel
      cases hkind : k.link.kind with
      | holds => simp [Link.isList, hkind] at hlist
      | through => exact .inr trivial
      | heldBy column many =>
          by_cases hloose : k.link.Loose t.model target
          · exact .inl hloose
          · refine .inr fun e hlook => ?_
            have huncut := (((hs.object ht).ends k.link hl e hlook).uncut target hnamed).resolve_left hloose
            rw [hkind] at huncut
            rw [hrefs.2 t e ht hlook] at huncut
            exact List.Subset.trans huncut (List.subset_append_left refs [r])

end Work

end RecordGraph
