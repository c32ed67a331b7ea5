import RecordGraph.Proofs.Relational.Retrieval
import RecordGraph.Relational.Store

/-!
# Rows that writes choose

An update, an upsert or a deletion looks its row up before anything is written, so it chooses among the
rows of the database as it was. What it does then is done to the first row that satisfies the filter.
-/

namespace RecordGraph

/-- A loop none of whose rounds changes the state does not change it. -/
theorem Act.runOn_forIn {σ α : Type} {xs : List α} {f : α → PUnit → Act σ (ForInStep PUnit)} {s : σ}
    (h : ∀ x ∈ xs, (f x ⟨⟩).runOn s = (.ok (.yield ⟨⟩), s)) :
    (forIn xs PUnit.unit f).runOn s = (.ok ⟨⟩, s) := by
  induction xs with
  | nil => rfl
  | cons x xs ih =>
      rw [List.forIn_cons]
      refine (runOn_bind_of (h x List.mem_cons_self)).trans ?_
      exact ih fun y hy => h y (List.mem_cons_of_mem _ hy)

/-! ## Transactions -/

namespace Query

variable {α β : Type} {act : Query α} {work : Work α} {entity : Option String} {name : String} {db : Database}

/-- A failure as a transaction tells it. -/
def told (entity : Option String) : Failure → Failure
  | .engine e => .fault (.ofEngine entity e)
  | failure => failure

/-- A transaction does what its work does, or nothing. -/
theorem transaction_run : (transaction entity act).runOn db = match act.runOn db with
    | (.ok a, db') => (.ok a, db')
    | (.error failure, _) => (.error (told entity failure), db) := by
  simp only [transaction, faulting, undoing, Act.runOn_tryCatch, Act.runOn_bind, Act.runOn_get]
  rcases act.runOn db with ⟨failure | a, s⟩
  · cases failure <;> rfl
  · rfl

theorem transaction_congr {other : Query α} (h : act.runOn db = other.runOn db) :
    (transaction entity act).runOn db = (transaction entity other).runOn db := by
  rw [transaction_run, transaction_run, h]

theorem transaction_map {f : α → β} :
    (transaction entity (f <$> act)).runOn db = (f <$> transaction entity act).runOn db := by
  rw [map_eq_pure_bind, map_eq_pure_bind, transaction_run, Act.runOn_bind, Act.runOn_bind, transaction_run]
  rcases act.runOn db with ⟨failure | a, s⟩ <;> rfl

section Limits

variable {clock : Clock} {limit : Value} {seconds : Binary64} {standing db' : Database} {a : α}

/-- Only a limit that is there gives seconds. -/
theorem within_run (hseconds : secondsOf limit = .ok seconds) :
    (within clock limit act).runOn db = match clock.cut? seconds db with
      | none => act.runOn db
      | some standing => (.error (overdue limit), standing) := by
  have hgiven : ¬ limit.isNull = true := by
    cases limit with
    | null => cases hseconds
    | _ => exact Bool.false_ne_true
  rw [within, if_neg hgiven]
  refine (Act.runOn_bind_of (congrArg (·, db) hseconds)).trans ?_
  rw [Act.runOn_bind, Act.runOn_get]
  dsimp only
  cases clock.cut? seconds db <;> rfl

end Limits

theorem write_run : (write name work).runOn db = match work.runOn { db } with
    | (.ok a, s) => (.ok a, s.db)
    | (.error failure, _) => (.error (told (some name) failure), db) := by
  rw [write, transaction_run, Act.runOn_bind, Act.runOn_get]
  dsimp only
  rcases work.runOn { db } with ⟨failure | a, s⟩ <;> rfl

theorem write_map {f : α → β} : (write name (f <$> work)).runOn db = (f <$> write name work).runOn db := by
  rw [map_eq_pure_bind, map_eq_pure_bind, Act.runOn_bind, write_run, write_run, Act.runOn_bind]
  rcases work.runOn { db } with ⟨failure | a, s⟩ <;> rfl

end Query

/-! ## Looking up in a new session -/

namespace Work

variable {c : Catalog} {m : Model} {db : Database} {filter : Object}

theorem flush_new : (flush c).runOn { db } = (.ok (), { db }) := by
  have hpairs : (writePairs c).runOn { db } = (.ok (), { db }) := rfl
  rw [flush]
  refine (Act.runOn_bind_of (Act.runOn_forIn fun m _ => rfl)).trans ?_
  refine (Act.runOn_bind_of (Act.runOn_forIn fun m _ => rfl)).trans ?_
  refine (Act.runOn_bind_of hpairs).trans ?_
  exact (Act.runOn_bind_of (Act.runOn_forIn fun m _ => rfl)).trans rfl

end Work

namespace Catalog

variable {α : Type} {c : Catalog} {m : Model} {db : Database} {entity : String}
  {filter payload changes fresh : Object} {p : Option Plan}

theorem findOne_run : (Work.findOne c m (.object filter)).runOn { db } = match c.firstRow db m filter with
    | .error failure => (.error failure, { db })
    | .ok none => (.ok none, { db })
    | .ok (some row) => (some <$> Work.ofRow m row).runOn { db } := by
  rw [Work.findOne, firstRow]
  cases hcond : c.condition m (.object filter) with
  | error failure => rfl
  | ok cond =>
      refine (Act.runOn_bind_of Act.runOn_liftM).trans ?_
      refine (Act.runOn_bind_of Work.flush_new).trans ?_
      rw [show (Except.ok cond : Except Failure Condition) = pure cond from rfl, pure_bind]
      cases hbind : cond.bind with
      | error failure => rfl
      | ok _ =>
          refine (Act.runOn_bind_of Act.runOn_liftM).trans ?_
          refine (Act.runOn_bind_of Act.runOn_get).trans ?_
          rw [show (Except.ok () : Except Failure Unit) = pure () from rfl, pure_bind]
          cases db.select m cond <;> rfl

theorem write_found {work : Option Ref → Work α} :
    (Query.write entity (Work.findOne c m (.object filter) >>= work)).runOn db = match c.firstRow db m filter with
      | .error failure => (.error (Query.told (some entity) failure), db)
      | .ok none => (Query.write entity (work none)).runOn db
      | .ok (some row) => (Query.write entity (Work.ofRow m row >>= fun ref => work (some ref))).runOn db := by
  rw [Query.write_run, Act.runOn_bind, findOne_run]
  cases c.firstRow db m filter with
  | error failure => rfl
  | ok found =>
      cases found with
      | none => rw [Query.write_run]
      | some row =>
          dsimp only
          rw [Query.write_run, map_eq_pure_bind, Act.runOn_bind, Act.runOn_bind]
          rcases (Work.ofRow m row).runOn { db } with ⟨failure | ref, s⟩ <;> rfl

/-! ## What is done to a row -/

/-- Changes a row and reads it back. -/
def changeRow (c : Catalog) (entity : String) (m : Model) (row : Row) (payload : Object) (p : Option Plan) :
    Query Object := do
  let key ← Query.write entity do c.updated (← Work.ofRow m row) payload
  c.output m p key

/-- Reads a row and removes it. -/
def removeRow (c : Catalog) (entity : String) (m : Model) (row : Row) (p : Option Plan) : Query Object :=
  Query.write entity do
    let ref ← Work.ofRow m row
    let key := (← Work.object ref).key
    let record ← Act.ofExcept ((c.output m p key).runOn (← get).db).1
    c.loadEnds m ref (p.getD {}).loads
    Work.doom ref
    Work.flush c
    return record

theorem update_run (hm : c.model? entity = some m) :
    (c.update entity filter payload p).runOn db = match c.firstRow db m filter with
      | .error failure => (.error (Query.told (some entity) failure), db)
      | .ok none => (.ok none, db)
      | .ok (some row) => (some <$> c.changeRow entity m row payload p).runOn db := by
  refine (Act.runOn_bind_of (congrArg (·, db) (model_ok_iff.mpr hm))).trans ?_
  rw [Act.runOn_bind, write_found]
  cases c.firstRow db m filter with
  | error failure => rfl
  | ok found =>
      cases found with
      | none => rfl
      | some row =>
          dsimp only
          rw [← map_bind, Query.write_map, map_eq_pure_bind, Act.runOn_bind, changeRow, map_bind, Act.runOn_bind]
          rcases (Query.write entity do c.updated (← Work.ofRow m row) payload).runOn db with
            ⟨failure | key, s⟩ <;> rfl

theorem upsert_run (hm : c.model? entity = some m) :
    (c.upsert entity filter fresh changes p).runOn db = match c.firstRow db m filter with
      | .error failure => (.error (Query.told (some entity) failure), db)
      | .ok none => (c.create entity fresh p).runOn db
      | .ok (some row) => (c.changeRow entity m row changes p).runOn db := by
  refine (Act.runOn_bind_of (congrArg (·, db) (model_ok_iff.mpr hm))).trans ?_
  rw [Act.runOn_bind, write_found]
  cases c.firstRow db m filter with
  | error failure => rfl
  | ok found =>
      cases found with
      | none =>
          refine .trans ?_ (Act.runOn_bind_of (congrArg (·, db) (model_ok_iff.mpr hm))).symm
          rw [Act.runOn_bind]
      | some row =>
          dsimp only
          rw [changeRow, Act.runOn_bind]

theorem delete_run (hm : c.model? entity = some m) :
    (c.delete entity filter p).runOn db = match c.firstRow db m filter with
      | .error failure => (.error (Query.told (some entity) failure), db)
      | .ok none => (.ok none, db)
      | .ok (some row) => (some <$> c.removeRow entity m row p).runOn db := by
  refine (Act.runOn_bind_of (congrArg (·, db) (model_ok_iff.mpr hm))).trans ?_
  rw [write_found]
  cases c.firstRow db m filter with
  | error failure => rfl
  | ok found =>
      cases found with
      | none => rfl
      | some row =>
          dsimp only
          rw [removeRow, ← Query.write_map]
          simp only [map_eq_pure_bind, bind_assoc, pure_bind]

end Catalog

end RecordGraph
