import RecordGraph.Proofs.Relational.Choosing
import RecordGraph.Proofs.Relational.Rendering

/-!
# Writes that leave no trace

A call that ends with a fault has changed nothing, and a call for many rows writes those of them that are
no duplicates.
-/

namespace RecordGraph

/-! ## Effects that change nothing -/

namespace Act

variable {σ α β : Type}

/-- The state stays as it is, however the effect ends. -/
def Still (act : Act σ α) : Prop := ∀ s, (act.runOn s).2 = s

theorem Still.run {act : Act σ α} (h : act.Still) {s t : σ} {out : Except Failure α} (hr : act.runOn s = (out, t)) :
    t = s := by
  have hs := h s
  rwa [hr] at hs

theorem still_ofExcept {outcome : Except Failure α} : (ofExcept outcome : Act σ α).Still := fun _ => rfl

theorem still_pure {a : α} : (pure a : Act σ α).Still := fun _ => rfl

theorem still_get : (get : Act σ σ).Still := fun _ => rfl

theorem Still.bind {act : Act σ α} {f : α → Act σ β} (h : act.Still) (hf : ∀ a, (f a).Still) :
    (act >>= f).Still := by
  intro s
  rw [runOn_bind]
  rcases hr : act.runOn s with ⟨failure | a, t⟩
  · exact h.run hr
  · rw [h.run hr]
    exact hf a s

theorem Still.mapM {f : α → Act σ β} (hf : ∀ a, (f a).Still) (items : List α) : (items.mapM f).Still := by
  induction items with
  | nil => exact still_pure
  | cons a items ih =>
      rw [List.mapM_cons]
      exact (hf a).bind fun _ => ih.bind fun _ => still_pure

theorem Still.foldlM {f : β → α → Act σ β} (hf : ∀ b a, (f b a).Still) (items : List α) (b : β) :
    (items.foldlM f b).Still := by
  induction items generalizing b with
  | nil => exact still_pure
  | cons a items ih =>
      rw [List.foldlM_cons]
      exact (hf b a).bind fun b => ih b

/-- A transaction that changes nothing has nothing to undo. -/
theorem Still.transaction {act : Query α} {entity : Option String} (h : act.Still) :
    (Query.transaction entity act).Still := by
  intro db
  rw [Query.transaction_run]
  rcases hr : act.runOn db with ⟨failure | a, db'⟩
  · rfl
  · exact h.run hr

end Act

namespace Catalog

variable {c : Catalog} {m : Model} {p : Plan} {db db' : Database} {entity : String} {payload filter changes : Object}
  {rows kept : List Object}

/-! ## Reads -/

theorem chosen_still : (c.chosen m p).Still := by
  unfold chosen
  refine Act.still_ofExcept.bind fun _ => Act.still_ofExcept.bind fun _ => Act.still_ofExcept.bind fun _ => ?_
  exact Act.still_ofExcept.bind fun _ => Act.still_ofExcept.bind fun _ => Act.still_get.bind fun _ => Act.still_pure

theorem shown_still (row : Row) : (Value.object <$> c.shown m p row).Still := by
  rw [map_eq_pure_bind]
  exact (Act.still_get.bind fun _ => Act.still_ofExcept).bind fun _ => Act.still_pure

theorem findMany_still : (c.findMany entity p).Still := by
  unfold findMany
  refine Act.still_ofExcept.bind fun m => chosen_still.bind fun rows => ?_
  refine Act.still_ofExcept.bind fun _ => Act.still_ofExcept.bind fun _ => ?_
  exact Act.Still.mapM shown_still _

theorem output_still {key : List Cell} : (c.output m p key).Still := by
  unfold output
  refine Act.still_ofExcept.bind fun _ => Act.still_get.bind fun db => ?_
  cases db.row? m key with
  | none => exact fun _ => rfl
  | some row => exact Act.still_get.bind fun _ => Act.still_ofExcept

/-! ## Duplicates -/

theorem takenTexts_still {columns : List Column} : (takenTexts m columns rows).Still := by
  dsimp only [takenTexts]
  split
  · exact Act.still_pure
  · refine (Act.Still.mapM (fun vs => ?_) _).bind fun conditions => ?_
    · exact (Act.Still.mapM (fun _ => Act.still_ofExcept) vs).bind fun _ => Act.still_pure
    exact Act.still_ofExcept.bind fun _ => Act.still_get.bind fun _ => Act.still_pure

theorem note_still {groups : List (List Column)} (k : Kept) (row : Object) :
    (do
      let (repeated, seen) ← Act.ofExcept (note row groups k.seen)
      return { seen, rows := if repeated then k.rows else k.rows ++ [row] } : Query Kept).Still :=
  Act.still_ofExcept.bind fun _ => Act.still_pure

theorem withoutDuplicates_still : (withoutDuplicates m rows).Still := by
  refine (Act.Still.mapM (fun _ => takenTexts_still) _).bind fun seen => ?_
  exact (Act.Still.foldlM note_still _ _).bind fun _ => Act.still_pure

/-- Each row is kept or passed over, in order. -/
theorem notes_sublist {groups : List (List Column)} {k k' : Kept}
    (h : (rows.foldlM (fun (k : Kept) row => do
      let (repeated, seen) ← Act.ofExcept (note row groups k.seen)
      return { seen, rows := if repeated then k.rows else k.rows ++ [row] } : Kept → Object → Query Kept) k).runOn db =
        (.ok k', db')) : ∃ more, more.Sublist rows ∧ k'.rows = k.rows ++ more := by
  induction rows generalizing k db with
  | nil =>
      obtain ⟨rfl, _⟩ := Act.runOn_pure_ok_iff.mp h
      exact ⟨[], .slnil, (List.append_nil _).symm⟩
  | cons row rows ih =>
      rw [List.foldlM_cons] at h
      obtain ⟨next, db₁, hnote, h⟩ := Act.runOn_bind_ok_iff.mp h
      obtain ⟨⟨repeated, seen⟩, db₂, hseen, hnote⟩ := Act.runOn_bind_ok_iff.mp hnote
      obtain ⟨rfl, rfl⟩ := Act.runOn_pure_ok_iff.mp hnote
      obtain ⟨more, hmore, hrows⟩ := ih h
      cases repeated with
      | true => exact ⟨more, hmore.cons row, hrows⟩
      | false => exact ⟨row :: more, hmore.cons_cons row, by rw [hrows]; exact List.append_assoc ..⟩

theorem withoutDuplicates_sublist (h : (withoutDuplicates m rows).runOn db = (.ok kept, db')) :
    kept.Sublist rows := by
  rw [withoutDuplicates] at h
  obtain ⟨seen, _, _, h⟩ := Act.runOn_bind_ok_iff.mp h
  obtain ⟨k, _, hfold, h⟩ := Act.runOn_bind_ok_iff.mp h
  obtain ⟨rfl, _⟩ := Act.runOn_pure_ok_iff.mp h
  obtain ⟨more, hmore, hrows⟩ := notes_sublist hfold
  exact hrows ▸ hmore

/-! ## Calls that fail -/

theorem output_plain {key : List Cell} : (c.output m none key).runOn db = match db.row? m key with
    | some row => (.ok (row.values m), db)
    | none => (.error (refused "No row was found when one was required"), db) := by
  rw [output]
  refine (Act.runOn_bind_of (t := db) (a := ()) rfl).trans ?_
  refine (Act.runOn_bind_of Act.runOn_get).trans ?_
  cases db.row? m key with
  | none => rfl
  | some row =>
      refine (Act.runOn_bind_of Act.runOn_get).trans ?_
      exact congrArg (·, db) record_whole

theorem faulting_run {α : Type} {name : Option String} {act : Query α} :
    (Query.faulting name act).runOn db = match act.runOn db with
      | (.ok a, db') => (.ok a, db')
      | (.error failure, db') => (.error (Query.told name failure), db') := by
  rw [Query.faulting, Act.runOn_tryCatch]
  rcases act.runOn db with ⟨failure | a, db'⟩
  · cases failure <;> rfl
  · rfl

/-- The rows that are no duplicates are created as they would be by themselves. -/
theorem createMany_run (hm : c.model entity = .ok m) :
    (c.createMany entity rows true).runOn db = match ((withoutDuplicates m rows).runOn db).1 with
      | .ok kept => (c.createMany entity kept false).runOn db
      | .error failure => (.error (Query.told (some entity) failure), db) := by
  rcases hkept : (withoutDuplicates m rows).runOn db with ⟨failure | kept, db₁⟩
  · obtain rfl := withoutDuplicates_still.run hkept
    rw [createMany, Act.runOn_bind, Act.runOn_liftM, hm]
    dsimp only
    rw [faulting_run, if_pos rfl, Act.runOn_bind, hkept]
  · obtain rfl := withoutDuplicates_still.run hkept
    have hboth {skip : Bool} {rows : List Object} : (c.createMany entity rows skip).runOn db₁ =
        (Query.faulting (some entity) do
          let rows ← if skip then withoutDuplicates m rows else pure rows
          Query.write entity do
            let refs ← rows.mapM (Work.create c m)
            for ref in refs do Work.attach ref
            Work.flush c
            return (rows.length : Int)).runOn db₁ := by
      rw [createMany, Act.runOn_bind, Act.runOn_liftM, hm]
    dsimp only
    rw [hboth, hboth, faulting_run, faulting_run, if_pos rfl, if_neg Bool.false_ne_true, Act.runOn_bind, hkept]
    rfl

theorem createMany_count {n : Int} (h : (c.createMany entity rows false).runOn db = (.ok n, db')) :
    n = rows.length := by
  obtain ⟨m, _, _, h⟩ := Act.runOn_bind_ok_iff.mp h
  rw [faulting_run, if_neg Bool.false_ne_true, pure_bind] at h
  split at h
  next heq =>
    obtain ⟨s, hwork, _⟩ := Query.write_ok heq
    simp only [Act.runOn_bind_ok_iff, Act.runOn_pure_ok_iff] at hwork
    obtain ⟨_, _, _, _, _, _, _, _, _, hn, _⟩ := hwork
    cases h
    exact hn
  next => cases h

/-- What is counted are the rows that are no duplicates. -/
theorem createMany_counted {n : Int} (h : (c.createMany entity rows true).runOn db = (.ok n, db')) :
    ∃ kept, kept.Sublist rows ∧ n = kept.length ∧ (c.createMany entity kept false).runOn db = (.ok n, db') := by
  obtain ⟨m, _, hlift, _⟩ := Act.runOn_bind_ok_iff.mp h
  obtain ⟨hm, _⟩ := Act.runOn_liftM_ok_iff.mp hlift
  rw [createMany_run hm] at h
  split at h
  next kept hkept =>
    exact ⟨kept, withoutDuplicates_sublist (Prod.ext hkept rfl), createMany_count h, h⟩
  next => cases h

end Catalog

end RecordGraph
