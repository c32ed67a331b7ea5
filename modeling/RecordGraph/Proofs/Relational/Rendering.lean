import RecordGraph.Proofs.Query.Screening
import RecordGraph.Proofs.Relational.Finding

/-!
# Records that calls come back with

Every record that a call of the storage comes back with, be it a read or a write, renders a row in the
shape of its plan. The records of a plan that screens are screened.
-/

namespace RecordGraph

theorem Query.write_ok {α : Type} {entity : String} {work : Work α} {a : α} {db db' : Database}
    (h : (write entity work).runOn db = (.ok a, db')) : ∃ s, work.runOn { db } = (.ok a, s) ∧ s.db = db' := by
  have h := transaction_ok h
  rw [Act.runOn_bind, Act.runOn_get] at h
  dsimp only at h
  rcases hrun : work.runOn { db } with ⟨outcome, s⟩
  rw [hrun] at h
  obtain ⟨_, _, hset, h⟩ := Act.runOn_bind_ok_iff.mp h
  cases hset
  cases h
  exact ⟨s, rfl, rfl⟩

namespace Catalog

variable {c : Catalog} {m : Model} {db db' : Database} {entity : String} {p : Plan} {plan : Option Plan}
  {record o : Object}

/-- A record of some row of an entity in the shape of a plan. -/
def Renders (c : Catalog) (entity : String) (p : Plan) (record : Object) : Prop :=
  ∃ m db row, c.model? entity = some m ∧ c.record db p.levels m p.loads p.shape row = .ok record

/-! ## Reads -/

theorem findMany_renders {records : List Value} (h : (c.findMany entity p).runOn db = (.ok records, db')) :
    ∀ x ∈ records, ∃ o, x = .object o ∧ c.Renders entity p o := by
  intro x hx
  obtain ⟨m, hm, hall⟩ := findMany_records h
  obtain ⟨row, _, o, rfl, hrow⟩ := hall x hx
  exact ⟨o, rfl, m, db, row, hm, hrow⟩

theorem shown_renders {row : Row} (hm : c.model? entity = some m)
    (h : (c.shown m p row).runOn db = (.ok record, db')) : c.Renders entity p record := by
  simp only [shown, Act.runOn_bind_ok_iff, Act.runOn_get_ok_iff, Act.runOn_liftM_ok_iff] at h
  obtain ⟨_, _, ⟨rfl, rfl⟩, hrecord, _⟩ := h
  exact ⟨m, _, row, hm, hrecord⟩

theorem findUnique_renders (h : (c.findUnique entity p).runOn db = (.ok (some record), db')) :
    c.Renders entity p record := by
  simp only [findUnique, Act.runOn_bind_ok_iff, Act.runOn_liftM_ok_iff] at h
  obtain ⟨m, _, ⟨hm, rfl⟩, rows, _, _, h⟩ := h
  cases rows with
  | nil => cases h
  | cons row rest =>
      simp only [map_eq_pure_bind, Act.runOn_bind_ok_iff, Act.runOn_pure_ok_iff, Option.some.injEq] at h
      obtain ⟨found, _, hfound, rfl, _⟩ := h
      exact shown_renders (model_ok_iff.mp hm) hfound

/-! ## Writes -/

theorem output_renders {key : List Cell} (hm : c.model? entity = some m)
    (h : (c.output m plan key).runOn db = (.ok record, db')) : c.Renders entity (plan.getD {}) record := by
  simp only [output, Act.runOn_bind_ok_iff] at h
  obtain ⟨_, _, _, stored, _, _, h⟩ := h
  split at h
  · exact shown_renders hm h
  · cases h

theorem create_renders {payload : Object} (h : (c.create entity payload plan).runOn db = (.ok record, db')) :
    c.Renders entity (plan.getD {}) record := by
  simp only [create, Act.runOn_bind_ok_iff, Act.runOn_liftM_ok_iff] at h
  obtain ⟨m, _, ⟨hm, rfl⟩, key, _, _, h⟩ := h
  exact output_renders (model_ok_iff.mp hm) h

theorem update_renders {filter payload : Object}
    (h : (c.update entity filter payload plan).runOn db = (.ok (some record), db')) :
    c.Renders entity (plan.getD {}) record := by
  simp only [update, Act.runOn_bind_ok_iff, Act.runOn_liftM_ok_iff] at h
  obtain ⟨m, _, ⟨hm, rfl⟩, key, _, _, h⟩ := h
  cases key with
  | none => cases h
  | some key =>
      simp only [Option.mapM_some, map_eq_pure_bind, Act.runOn_bind_ok_iff, Act.runOn_pure_ok_iff,
        Option.some.injEq] at h
      obtain ⟨found, _, hfound, rfl, _⟩ := h
      exact output_renders (model_ok_iff.mp hm) hfound

theorem upsert_renders {filter fresh changes : Object}
    (h : (c.upsert entity filter fresh changes plan).runOn db = (.ok record, db')) :
    c.Renders entity (plan.getD {}) record := by
  simp only [upsert, Act.runOn_bind_ok_iff, Act.runOn_liftM_ok_iff] at h
  obtain ⟨m, _, ⟨hm, rfl⟩, key, _, _, h⟩ := h
  exact output_renders (model_ok_iff.mp hm) h

theorem delete_renders {filter : Object} (h : (c.delete entity filter plan).runOn db = (.ok (some record), db')) :
    c.Renders entity (plan.getD {}) record := by
  simp only [delete, Act.runOn_bind_ok_iff, Act.runOn_liftM_ok_iff] at h
  obtain ⟨m, _, ⟨hm, rfl⟩, h⟩ := h
  obtain ⟨s, h, _⟩ := Query.write_ok h
  obtain ⟨ref, _, _, h⟩ := Act.runOn_bind_ok_iff.mp h
  cases ref with
  | none => cases h
  | some ref =>
      simp only [Act.runOn_bind_ok_iff, Act.runOn_ofExcept, Act.runOn_pure_ok_iff, Option.some.injEq,
        Prod.mk.injEq] at h
      obtain ⟨t, _, _, _, _, _, found, _, ⟨hfound, _⟩, _, _, _, _, _, _, _, _, _, rfl, _⟩ := h
      exact output_renders (model_ok_iff.mp hm) (Prod.ext hfound rfl)

/-! ## Screened records -/

theorem mem_shownRecords {x : Value} : o ∈ x.shownRecords ↔ .object o ∈ x.asItems := by
  unfold Value.shownRecords
  rw [List.mem_filterMap]
  constructor
  · rintro ⟨item, hi, he⟩
    cases item <;> cases he
    exact hi
  · exact fun hi => ⟨_, hi, rfl⟩

/-- The records under a link render rows of its target in the shape of the entry. -/
theorem relationValue_records {levels : Nat} {loads : Object} {row : Row} {l : Link} {entry x : Value}
    (h : c.relationValue db levels loads row l entry = .ok x) (ho : o ∈ x.shownRecords) :
    Object.get loads l.name ≠ .null ∧ ∃ target other, c.named l.target = .ok target ∧
      c.record db levels target (Shape.loads (Object.get loads l.name)) (Shape.members entry) other = .ok o := by
  rw [mem_shownRecords] at ho
  rw [relationValue] at h
  split at h
  · rename_i hpresent
    have hne : Object.get loads l.name ≠ .null := by
      intro he
      rw [he] at hpresent
      cases hpresent
    refine ⟨hne, ?_⟩
    obtain ⟨⟨target, rows⟩, hrows, h⟩ := bind_ok_iff.mp h
    simp only [loadedRows, bind_ok_iff, pure_ok_iff, Prod.mk.injEq] at hrows
    obtain ⟨target, htarget, _, _, _, _, rfl, _⟩ := hrows
    refine ⟨target, ?_⟩
    dsimp only at h
    split at h
    · obtain ⟨items, hitems, rfl⟩ := map_ok_iff.mp h
      obtain ⟨other, _, hother⟩ := forall₂_partner (mapM_ok_forall₂ hitems).flip ho
      obtain ⟨_, hrecord, he⟩ := map_ok_iff.mp hother
      cases he
      exact ⟨other, htarget, hrecord⟩
    · split at h
      · cases pure_ok_iff.mp h
        cases ho
      · rename_i other rest _
        obtain ⟨_, hrecord, rfl⟩ := map_ok_iff.mp h
        cases List.mem_singleton.mp ho
        exact ⟨other, htarget, hrecord⟩
  · split at h
    · cases pure_ok_iff.mp h
      cases ho
    · cases h

variable {v : Viewpoint}

/-- A record of a shape that screens, whose relations were loaded by a tree that does, is screened. -/
theorem record_screened (hd : v.schema.Describes c) {levels : Nat} : ∀ {entity : String} {m : Model}
    {loads shape : Object} {row : Row} {record : Object}, c.model? entity = some m →
    Shape.ScreensTree v entity loads → Shape.Screens v entity shape →
    c.record db levels m loads shape row = .ok record → v.Screened entity record := by
  induction levels with
  | zero => intro _ _ _ _ _ _ _ _ _ h; cases h
  | succ levels ih =>
      intro entity m loads shape row record hm hloads hshape h
      -- A relation shows what its entry lets it show, of rows that were loaded for a readable target.
      have hrelation {name : String} {x : Value} {r : Relation} (hx : (name, x) ∈ record)
          (hr : v.schema.relation? entity name = .ok (some r)) :
          ∀ o ∈ x.shownRecords, v.Readable r.target ∧ v.Screened r.target o := by
        intro o ho
        rcases record_member h hx with ⟨hin, _⟩ | ⟨key, hk, tree, entry, l, hs, hin, hl, hv⟩
        · obtain ⟨column, hc, he⟩ := List.mem_map.mp hin
          cases he
          rw [hd.column hm (hd.apart hm column hc)] at hr
          cases hr
        · have hname : l.name = name := by simpa using List.find?_some hl
          subst hname
          obtain ⟨r', target, hr', _, ht, hnamed⟩ := hd.link hm hl
          rw [hr] at hr'
          cases hr'
          obtain ⟨hreadable, hbelow⟩ := hshape.subtree hk hs l.name entry r hin hr
          obtain ⟨hne, target', other, hnamed', hother⟩ := relationValue_records hv ho
          rw [hnamed] at hnamed'
          cases hnamed'
          obtain ⟨_, hloaded⟩ := hloads _ _ _ (Object.mem_of_get_ne_null hne) hr
          exact ⟨hreadable, ih ht hloaded.loads hbelow hother⟩
      refine .of (fun name hk hnone hom => ?_) (fun name x r hx hr hne => ?_)
        (fun name x r hx hr o ho => (hrelation hx hr o ho).2)
      · obtain ⟨⟨_, x⟩, hx, rfl⟩ := List.mem_map.mp hk
        rcases record_member h hx with ⟨_, hcol⟩ | ⟨_, _, _, _, l, _, _, hl, _⟩
        · obtain ⟨columns, _, _⟩ := hshape
          exact columns _ hnone hom hcol
        · obtain ⟨r, _, hr, _⟩ := hd.link hm hl
          rw [hnone] at hr
          cases hr
      · obtain ⟨o, ho⟩ := List.exists_mem_of_ne_nil _ hne
        exact (hrelation hx hr o ho).1

theorem Renders.screened (hd : v.schema.Describes c) (hp : p.Screens v entity) (h : c.Renders entity p record) :
    v.Screened entity record := by
  obtain ⟨m, db, row, hm, hrecord⟩ := h
  exact record_screened hd hm hp.1 hp.2 hrecord

end Catalog

end RecordGraph
