import RecordGraph.Proofs.Relational.Undoing

/-!
# What new rows are built of

A row is only built of members that its model has.
-/

namespace RecordGraph

/-! ## Every item of a loop that ends -/

namespace Act

variable {σ α β : Type} {s t : σ}

theorem runOn_mapM_each {f : α → Act σ β} {items : List α} {results : List β}
    (h : (items.mapM f).runOn s = (.ok results, t)) : ∀ a ∈ items, ∃ u b v, (f a).runOn u = (.ok b, v) := by
  induction items generalizing s t results with
  | nil => exact nofun
  | cons a items ih =>
      rw [List.mapM_cons] at h
      obtain ⟨b, u, ha, h⟩ := runOn_bind_ok_iff.mp h
      obtain ⟨bs, v, hrest, _⟩ := runOn_bind_ok_iff.mp h
      exact List.forall_mem_cons.mpr ⟨⟨s, b, u, ha⟩, ih hrest⟩

/-- What a round of a loop needs to end, if none leaves the loop early, holds of all items of one that ended. -/
theorem runOn_forIn_each {f : α → PUnit → Act σ (ForInStep PUnit)} {P : α → Prop} {items : List α}
    (hf : ∀ a u step v, (f a ⟨⟩).runOn u = (.ok step, v) → step = .yield ⟨⟩ ∧ P a)
    (h : (forIn items PUnit.unit f).runOn s = (.ok ⟨⟩, t)) : ∀ a ∈ items, P a := by
  induction items generalizing s with
  | nil => exact nofun
  | cons a items ih =>
      rw [List.forIn_cons] at h
      obtain ⟨step, u, ha, h⟩ := runOn_bind_ok_iff.mp h
      obtain ⟨rfl, hp⟩ := hf a s step u ha
      exact List.forall_mem_cons.mpr ⟨hp, ih h⟩

end Act

namespace Work

variable {c : Catalog} {m : Model} {ref : Ref} {payload : Object} {s s' : Session} {t : Tracked}

theorem object_run (ht : s.objects[ref]? = some t) : (object ref).runOn s = (.ok t, s) := by
  rw [object]
  refine (Act.runOn_bind_of Act.runOn_get).trans ?_
  rw [ht]
  rfl

/-- Members are set that the model of the object has. -/
theorem setWithin_members {levels : Nat} (ht : s.objects[ref]? = some t)
    (h : (setWithin c levels ref (.object payload)).runOn s = (.ok (), s')) :
    ∀ kv ∈ payload, t.model.Has kv.1 := by
  cases levels with
  | zero =>
      cases payload with
      | nil => exact nofun
      | cons kv rest => cases h
  | succ levels =>
      rw [setWithin] at h
      obtain ⟨t', s₁, hobject, h⟩ := Act.runOn_bind_ok_iff.mp h
      cases (object_run ht).symm.trans hobject
      obtain ⟨_, s₂, hloop, _⟩ := Act.runOn_bind_ok_iff.mp h
      refine Act.runOn_forIn_each (fun (key, v) u step w hstep => ?_) hloop
      dsimp only at hstep ⊢
      split at hstep
      next l hlink =>
        obtain ⟨_, _, _, hpure⟩ := Act.runOn_bind_ok_iff.mp hstep
        exact ⟨(Act.runOn_pure_ok_iff.mp hpure).1, .inl (by rw [hlink]; rfl)⟩
      next column _ hcolumn =>
        obtain ⟨_, _, _, hset⟩ := Act.runOn_bind_ok_iff.mp hstep
        obtain ⟨_, _, _, hpure⟩ := Act.runOn_bind_ok_iff.mp hset
        exact ⟨(Act.runOn_pure_ok_iff.mp hpure).1, .inr (by rw [hcolumn]; rfl)⟩
      next => cases hstep

theorem track_run : (track t).runOn s = (.ok s.objects.length, { s with objects := s.objects ++ [t] }) := rfl

theorem create_members (h : (create c m payload).runOn s = (.ok ref, s')) : ∀ kv ∈ payload, m.Has kv.1 := by
  rw [create] at h
  obtain ⟨own, s₁, htrack, h⟩ := Act.runOn_bind_ok_iff.mp h
  cases track_run.symm.trans htrack
  obtain ⟨_, _, hset, _⟩ := Act.runOn_bind_ok_iff.mp h
  exact setWithin_members (List.getElem?_concat_length ..) hset

end Work

namespace Catalog

variable {c : Catalog} {m : Model} {entity : String} {rows : List Object} {n : Int} {db db' : Database}

theorem createMany_members (hm : c.model? entity = some m)
    (h : (c.createMany entity rows false).runOn db = (.ok n, db')) : ∀ row ∈ rows, ∀ kv ∈ row, m.Has kv.1 := by
  obtain ⟨m', _, hlift, h⟩ := Act.runOn_bind_ok_iff.mp h
  obtain ⟨hm', _⟩ := Act.runOn_liftM_ok_iff.mp hlift
  cases hm.symm.trans (model_ok_iff.mp hm')
  rw [faulting_run, if_neg Bool.false_ne_true, pure_bind] at h
  split at h
  next heq =>
    obtain ⟨s, hwork, _⟩ := Query.write_ok heq
    obtain ⟨refs, _, hrefs, _⟩ := Act.runOn_bind_ok_iff.mp hwork
    intro row hrow
    obtain ⟨_, _, _, hcreate⟩ := Act.runOn_mapM_each hrefs row hrow
    exact Work.create_members hcreate
  next => cases h

end Catalog

end RecordGraph
