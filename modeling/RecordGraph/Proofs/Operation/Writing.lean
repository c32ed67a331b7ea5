import RecordGraph.Proofs.Access.Conjunction
import RecordGraph.Proofs.Operation.Chains
import RecordGraph.Proofs.Operation.Getting
import RecordGraph.Proofs.Operation.Stages
import RecordGraph.Proofs.Relational.Choosing

/-!
# Rows that are written

An update, an upsert or a deletion is done to one row of the database that the hooks before it leave. The
row answers to the condition of the write and to what the user may write.
-/

namespace RecordGraph

namespace Engine

/-! ## What is done to a row -/

section Rows

variable {σ : Type} {e : Engine σ} {entity : String} {s : σ} {p : Prepared} {payload : Object}

theorem ask_congr {α : Type} {act other : Act σ α} (h : act.runOn s = other.runOn s) :
    (e.ask payload act).runOn s = (e.ask payload other).runOn s := by
  rw [ask_run, ask_run, h]

theorem required_found {act : Act σ (Option Object)} {found : Act σ Object}
    (h : act.runOn s = (some <$> found).runOn s) :
    (do required entity (← e.ask payload act) : Act σ Object).runOn s = (e.ask payload found).runOn s := by
  rw [Act.runOn_bind, ask_run, ask_run, h, map_eq_pure_bind, Act.runOn_bind]
  rcases found.runOn s with ⟨failure | record, t⟩ <;> rfl

variable {e : Engine Database} {c : Catalog} {clock : Clock} {m : Model} {db : Database} {row : Row} {filter : Object}

/-- What a write does to one row. -/
def onRow (e : Engine Database) (c : Catalog) (entity : String) (m : Model) (row : Row) (p : Prepared) :
    Act Database Object :=
  e.ask p.payload <| Query.transaction (some entity) <| match p.deed with
    | .set changes | .setOrCreate changes _ => c.changeRow entity m row changes (some p.plan)
    | .remove => c.removeRow entity m row (some p.plan)

/-- What a write does if there is no row for it. -/
def withoutRow (e : Engine Database) (entity : String) (p : Prepared) : Act Database Object :=
  match p.deed with
  | .setOrCreate _ whole => e.ask p.payload (e.storage.create entity whole (some p.plan))
  | .set _ | .remove => throw (.access "no_permission" entity)

theorem perform_some (hstore : e.storage = c.storage clock) (hm : c.model? entity = some m)
    (h : c.firstRow db m filter = .ok (some row)) :
    (e.perform entity filter p).runOn db = (e.onRow c entity m row p).runOn db := by
  unfold perform onRow
  rw [hstore]
  cases p.deed with
  | set changes =>
      refine required_found ?_
      rw [← Query.transaction_map]
      exact Query.transaction_congr (by rw [Catalog.update_run hm, h])
  | setOrCreate changes whole =>
      exact ask_congr (Query.transaction_congr (by rw [Catalog.upsert_run hm, h]))
  | remove =>
      refine required_found ?_
      rw [← Query.transaction_map]
      exact Query.transaction_congr (by rw [Catalog.delete_run hm, h])

theorem perform_none (hstore : e.storage = c.storage clock) (hm : c.model? entity = some m)
    (h : c.firstRow db m filter = .ok none) :
    (e.perform entity filter p).runOn db = (e.withoutRow entity p).runOn db := by
  have hnone {act : Query (Option Object)} (hrun : act.runOn db = (.ok none, db)) :
      (do required entity (← e.ask p.payload (Query.transaction (some entity) act)) : Act Database Object).runOn db =
        (.error (.access "no_permission" entity), db) := by
    rw [Act.runOn_bind, ask_run, Query.transaction_run, hrun]
    rfl
  unfold perform withoutRow
  rw [hstore]
  cases p.deed with
  | set changes => exact hnone (by rw [Catalog.update_run hm, h])
  | setOrCreate changes whole =>
      exact ask_congr (Query.transaction_congr (by rw [Catalog.upsert_run hm, h]))
  | remove => exact hnone (by rw [Catalog.delete_run hm, h])

theorem perform_error (hstore : e.storage = c.storage clock) (hm : c.model? entity = some m) {cause : Failure}
    (h : c.firstRow db m filter = .error cause) :
    ∃ failure, (e.perform entity filter p).runOn db = (.error failure, db) := by
  have hask {α : Type} {act : Query α} (hrun : act.runOn db = (.error (Query.told (some entity) cause), db)) :
      ∃ failure, (e.ask p.payload (Query.transaction (some entity) act)).runOn db = (.error failure, db) := by
    rw [ask_run, Query.transaction_run, hrun]
    exact ⟨_, rfl⟩
  unfold perform
  rw [hstore]
  cases p.deed with
  | set changes =>
      have hrun : (c.update entity filter changes (some p.plan)).runOn db =
          (.error (Query.told (some entity) cause), db) := by rw [Catalog.update_run hm, h]
      obtain ⟨failure, hfail⟩ := hask hrun
      exact ⟨failure, Act.runOn_bind_error hfail⟩
  | setOrCreate changes whole => exact hask (by rw [Catalog.upsert_run hm, h])
  | remove =>
      have hrun : (c.delete entity filter (some p.plan)).runOn db =
          (.error (Query.told (some entity) cause), db) := by rw [Catalog.delete_run hm, h]
      obtain ⟨failure, hfail⟩ := hask hrun
      exact ⟨failure, Act.runOn_bind_error hfail⟩

end Rows

/-! ## Rows that answer to a write -/

/-- A row that a condition addresses and that the user may write. -/
structure Answers (c : Catalog) (m : Model) (db : Database) (condition permission : Object) (row : Row) : Prop where
  stored : row ∈ db.rows m
  addressed : c.Satisfies m db row (.object condition)
  permitted : c.Satisfies m db row (.object permission)

/-- A write is done to a row that its condition addresses and that the user may write, by the database that
the hooks before it left. If there is none, an update or a deletion is refused and changes nothing. The
conditions of the user's filter that are taken for the condition of the write have to be read like it. -/
theorem writes_confined {e : Engine Database} {c : Catalog} {entity : String} {m : Model}
    (hstore : e.storage = c.storage clock) (hm : c.model? entity = some m) (hr : e.rules.Proper) (user : User)
    (w : Write) (db : Database) :
    (∀ d, (e.viewpoint user).decide w.action entity = .ok d → d.denied = true →
      (∀ data uniqueKey, w = .upsert data uniqueKey → ∃ b, (e.viewpoint user).canCreate entity data = .ok b) →
      ∃ message, e.write entity user w = throw (.access message entity)) ∧
    ((¬ ∃ start before p db', e.Reaches entity user w db start before p db') →
      ((e.write entity user w).runOn db).2 =
        ((do
          let start ← (e.permit entity user w : Except Failure Start)
          e.runHooks "before" w.operation entity user start.context : Act Database HookContext).runOn db).2) ∧
    ∀ start before p db', e.Reaches entity user w db start before p db' →
      (e.viewpoint user).filterFor w.action entity = .ok start.permission ∧
      w.condition e.schema entity start before = .ok p.condition ∧
      (Guard.Alike c m p.condition start.permission →
        (∃ row, Answers c m db' p.condition start.permission row ∧
          (db'.Keyed m → db'.row? m (row.key m) = some row) ∧
          (e.write entity user w).runOn db = (do
            let record ← e.onRow c entity m row p
            e.conclude entity user w.operation p record).runOn db') ∨
        (∀ row, ¬ Answers c m db' p.condition start.permission row) ∧
          (w.isUpsert = false → (e.write entity user w).runOn db = (.error (.access "no_permission" entity), db')) ∧
          (w.isUpsert = true → ∃ changes whole, p.deed = .setOrCreate changes whole ∧
            (e.write entity user w).runOn db = (do
              let record ← e.ask p.payload (e.storage.create entity whole (some p.plan))
              e.conclude entity user w.operation p record).runOn db') ∨
        ∃ cause failure, c.firstRow db' m (Guard.merge p.condition start.permission) = .error cause ∧
          (e.write entity user w).runOn db = (.error failure, db')) := by
  refine ⟨fun d hd hden hcreate => write_denied hd hden hcreate, write_unreached,
    fun start before p db' h => ⟨start_permission h.permitted, (prepare_ok h.prepared).1, fun ha => ?_⟩⟩
  -- The storage gets one filter, which only the rows satisfy that answer to both of its parts.
  have hanswers (row : Row) (hrow : row ∈ db'.rows m) :
      c.Satisfies m db' row (.object (Guard.merge p.condition start.permission)) ↔
        Answers c m db' p.condition start.permission row := by
    obtain ⟨k, v, hsingle⟩ := Write.condition_single (prepare_ok h.prepared).1
    have hnodup : p.condition.keys.Nodup := by simp [hsingle, Object.keys]
    rw [Guard.merge_satisfies_iff hnodup (Rules.filterFor_nodup hr (start_permission h.permitted)) ha]
    exact ⟨fun hs => ⟨hrow, hs.1, hs.2⟩, fun hs => ⟨hs.addressed, hs.permitted⟩⟩
  cases hfirst : c.firstRow db' m (Guard.merge p.condition start.permission) with
  | error cause =>
      obtain ⟨failure, hperform⟩ := perform_error (p := p) hstore hm hfirst
      exact .inr (.inr ⟨cause, failure, rfl, h.run.trans (Act.runOn_bind_error hperform)⟩)
  | ok found =>
      cases found with
      | some row =>
          obtain ⟨hrow, hsat⟩ := Catalog.firstRow_some hfirst
          refine .inl ⟨row, (hanswers row hrow).mp hsat, fun hk => hk.row?_key hrow, h.run.trans ?_⟩
          rw [Act.runOn_bind, Act.runOn_bind, perform_some hstore hm hfirst]
      | none =>
          have hnone : (e.write entity user w).runOn db = (do
              let record ← e.withoutRow entity p
              e.conclude entity user w.operation p record).runOn db' := by
            rw [h.run, Act.runOn_bind, Act.runOn_bind, perform_none hstore hm hfirst]
          refine .inr (.inl ⟨fun row hrow => ?_, fun hno => ?_, fun hyes => ?_⟩)
          · exact Catalog.firstRow_none hfirst row hrow.stored ((hanswers row hrow.stored).mpr hrow)
          · rcases (prepare_ok h.prepared).2 with ⟨hyes, _⟩ | ⟨_, hdeed⟩
            · rw [hyes] at hno; cases hno
            · rw [hnone, withoutRow]
              cases hd : p.deed with
              | set | remove => rfl
              | setOrCreate changes whole => exact absurd hd (hdeed changes whole)
          · rcases (prepare_ok h.prepared).2 with ⟨_, changes, whole, hdeed⟩ | ⟨hno, _⟩
            · exact ⟨changes, whole, hdeed, by rw [hnone, withoutRow, hdeed]⟩
            · rw [hyes] at hno; cases hno

/-! A blog in which a comment may be edited once it was approved, a user whose name is a zero, and no post. -/

/-- Rules that only say which rows may be updated. -/
def updateRules (answers : List (String × Value)) : Rules :=
  ⟨answers.map fun (entity, answer) => (entity, { updatable := some fun _ => .ok answer })⟩

theorem updateRules_proper {answers : List (String × Value)} (h : ∀ kv ∈ answers, kv.2.Proper) :
    (updateRules answers).Proper := by
  intro entity r action ask p given hr ha hp
  rw [Rules.get?, List.lookup_eq_some_iff] at hr
  obtain ⟨before, after, hsplit, _⟩ := hr
  have hin : (entity, r) ∈ (updateRules answers).entries := by rw [hsplit]; simp
  obtain ⟨⟨_, answer⟩, hanswer, he⟩ := List.mem_map.mp hin
  cases he
  cases action with
  | update => cases ha; cases hp; exact h _ hanswer
  | read | delete => cases ha

def moderatedEngine : Engine Database :=
  { schema := Catalog.blogCatalog.schema, storage := Catalog.blogCatalog.storage
    rules := updateRules [("Comment", .object [("approved", .bool true)]), ("User", .object [("name", .int 0)]),
      ("Post", .bool false)] }

theorem moderatedEngine_proper : moderatedEngine.rules.Proper :=
  updateRules_proper (by simp [Value.Proper, Value.ProperMembers, Object.keys])

def editing : Write := .update (.int 1) (.object [("body", .text "edited")])

def editingStart : Start :=
  { permission := [("approved", .bool true)], id := .int 1, data := .object [("body", .text "edited")] }

def editingPrepared : Prepared :=
  { condition := [("id", .int 1)], deed := .set [("body", .text "edited")], plan := {}
    payload := [("body", .text "edited")], id := .int 1, data := .object [("body", .text "edited")] }

/-- What is told to hooks if there are none. -/
def untold (entity : String) (w : Write) (start : Start) : HookContext :=
  start.context { entity, operation := w.operation, stage := "before", user := some (.principal {}) }

theorem editing_reaches : moderatedEngine.Reaches "Comment" (.principal {}) editing Catalog.blogDatabase editingStart
    (untold "Comment" editing editingStart) editingPrepared Catalog.blogDatabase where
  permitted := rfl
  hooked := runHooks_none rfl
  continued := rfl
  prepared := rfl

/-- The comment that was approved is edited; an edit of a post ends before any hook. -/
theorem approvedComment_edited :
    moderatedEngine.storage = Catalog.blogCatalog.storage ∧
    Catalog.blogCatalog.model? "Comment" = some commentModel ∧ moderatedEngine.rules.Proper ∧
    moderatedEngine.Reaches "Comment" (.principal {}) editing Catalog.blogDatabase editingStart
      (untold "Comment" editing editingStart) editingPrepared Catalog.blogDatabase ∧
    (∃ row, Answers Catalog.blogCatalog commentModel Catalog.blogDatabase [("id", .int 1)]
        [("approved", .bool true)] row ∧
      (moderatedEngine.write "Comment" (.principal {}) editing).runOn Catalog.blogDatabase = (do
        let record ← moderatedEngine.onRow Catalog.blogCatalog "Comment" commentModel row editingPrepared
        moderatedEngine.conclude "Comment" (.principal {}) "update" editingPrepared record).runOn
          Catalog.blogDatabase) ∧
    ∃ message, moderatedEngine.write "Post" (.principal {}) editing = throw (.access message "Post") := by
  have hcomment : Catalog.blogCatalog.model? "Comment" = some commentModel := rfl
  have hpost : Catalog.blogCatalog.model? "Post" = some ((Catalog.blogCatalog.model? "Post").getD default) := rfl
  have hstore : moderatedEngine.storage = Catalog.blogCatalog.storage := rfl
  obtain ⟨_, _, hreached⟩ :=
    writes_confined hstore hcomment moderatedEngine_proper (.principal {}) editing Catalog.blogDatabase
  obtain ⟨hdenied, _⟩ :=
    writes_confined hstore hpost moderatedEngine_proper (.principal {}) editing Catalog.blogDatabase
  obtain ⟨_, _, hcases⟩ := hreached _ _ _ _ editing_reaches
  have halike : Guard.Alike Catalog.blogCatalog commentModel [("id", .int 1)] [("approved", .bool true)] := by
    intro key v w hv hw
    simp only [List.mem_singleton, Prod.mk.injEq] at hv hw
    rw [hv.1] at hw
    exact absurd hw.1 (by decide)
  have hfirst : Catalog.blogCatalog.firstRow Catalog.blogDatabase commentModel
      (Guard.merge [("id", .int 1)] [("approved", .bool true)]) = .ok (some firstComment) := by cbv
  refine ⟨hstore, hcomment, moderatedEngine_proper, editing_reaches, ?_,
    hdenied .deny rfl rfl fun _ _ hupsert => by cases hupsert⟩
  rcases hcases halike with ⟨row, hrow, _, hrun⟩ | ⟨hnone, _⟩ | ⟨cause, _, herror, _⟩
  · exact ⟨row, hrow, hrun⟩
  · obtain ⟨hrow, hid, happroved⟩ := firstComment_open
    exact absurd ⟨hrow, hid, happroved⟩ (hnone firstComment)
  · cases hfirst.symm.trans herror

def userModel : Model := (Catalog.blogCatalog.model? "User").getD default

def zeroDatabase : Database :=
  { tables := [("User", [[("id", .integer 7), ("name", .text "0"), ("password", .text "secret")]])] }

/-- A zero that is written as `0.0`. -/
def doubleZero : Value := .float (.zero false)

def retitling : Write := .upsert (.object [("name", doubleZero)]) (.text "name")

def retitlingStart : Start :=
  { permission := [("name", .int 0)], data := .object [("name", doubleZero)], uniqueKey := .text "name" }

def retitlingPrepared : Prepared :=
  { condition := [("name", doubleZero)], deed := .setOrCreate [("name", doubleZero)] [("name", doubleZero)]
    plan := {}, payload := [("name", doubleZero)], data := .object [("name", doubleZero)] }

theorem retitling_reaches : moderatedEngine.Reaches "User" (.principal {}) retitling zeroDatabase retitlingStart
    (untold "User" retitling retitlingStart) retitlingPrepared zeroDatabase where
  permitted := rfl
  hooked := runHooks_none rfl
  continued := rfl
  prepared := rfl

def retitledDatabase : Database :=
  { tables := [("User", [[("id", .integer 7), ("name", .text "0.0"), ("password", .text "secret")]])] }

/-- An upsert by the name `0.0`, which no user has, changes the user named `0`: the condition of the rules
has the same worth and takes the place of that of the key. -/
theorem zeroName_overwritten :
    moderatedEngine.Reaches "User" (.principal {}) retitling zeroDatabase retitlingStart
      (untold "User" retitling retitlingStart) retitlingPrepared zeroDatabase ∧
    (∀ row ∈ zeroDatabase.rows userModel,
      ¬ Catalog.blogCatalog.Satisfies userModel zeroDatabase row (.object [("name", doubleZero)])) ∧
    ∃ outcome, (moderatedEngine.write "User" (.principal {}) retitling).runOn zeroDatabase =
      (.ok outcome, retitledDatabase) := by
  have hsame : doubleZero.same (.int 0) = true := by decide +kernel
  have hmerge : Guard.merge [("name", doubleZero)] [("name", .int 0)] = [("name", .int 0)] := by
    simp [Guard.merge, Guard.clashes, Object.get?, hsame, Object.update, Object.set]
  have hupsert : (Catalog.blogCatalog.storage.upsert "User" [("name", .int 0)] [("name", doubleZero)]
      [("name", doubleZero)] (some {})).runOn zeroDatabase =
        (.ok [("id", .int 7), ("name", .text "0.0"), ("password", .text "secret")], retitledDatabase) := by cbv
  have hperform : (moderatedEngine.perform "User" [("name", .int 0)] retitlingPrepared).runOn zeroDatabase =
      (.ok [("id", .int 7), ("name", .text "0.0"), ("password", .text "secret")], retitledDatabase) :=
    ask_of hupsert
  refine ⟨retitling_reaches, ?_, ?_⟩
  · rintro row hrow ⟨cond, hcond, hsel⟩
    cases hcond
    obtain rfl := List.mem_singleton.mp (Database.mem_rows.mp hrow)
    exact absurd hsel (by decide)
  · rw [retitling_reaches.run, show Guard.merge retitlingPrepared.condition retitlingStart.permission = _ from hmerge]
    exact ⟨_, (Act.runOn_bind_of hperform).trans rfl⟩

end Engine

end RecordGraph
