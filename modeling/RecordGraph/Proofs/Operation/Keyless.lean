import RecordGraph.Proofs.Operation.Writing
import RecordGraph.Proofs.Value.Reordering

/-!
# Upserts that leave their key open

A field of the unique key that the payload does not fill is asked for as null, and null is a value that rows have. So an
upsert that leaves a part of its key open finds the rows that are null there: none, if the column is required, and else
the rows that have no key yet.
-/

namespace RecordGraph

theorem Value.eq_null_of_same {v : Value} (h : Value.null.same v = true) : v = .null := by
  cases v with
  | null => rfl
  | _ => simp [Value.same, Value.worth?] at h

namespace Key.UniqueKey

variable {c : Catalog} {m : Model} {db : Database} {row : Row} {key : UniqueKey} {payload : Object} {v : Value}
  {field : String}

/-- The name under which the condition on a unique key stands. -/
def name : UniqueKey → String
  | .single field => field
  | .compound fields => joinTexts "_" fields

/-- What the condition on a unique key asks for. -/
def asked (key : UniqueKey) (payload : Object) : Value :=
  match key with
  | .single field => Object.get payload field
  | .compound fields => .object (Object.ofMembers (fields.map fun f => (f, Object.get payload f)))

theorem condition_eq : key.condition payload = [(key.name, key.asked payload)] := by cases key <;> rfl

/-- The name of the condition stands for the fields of the key and for nothing else. -/
structure Addresses (key : UniqueKey) (m : Model) : Prop where
  plain : key.name ∉ ["AND", "OR", "NOT"]
  unlinked : m.link? key.name = none
  apart : ∀ fields, key = .compound fields → m.column? key.name = none

/-- The fields of the key that a payload does not fill. -/
def missing (key : UniqueKey) (payload : Object) : List String := key.fields.filter fun f => (Object.get payload f).isNull

theorem equalTo_null {column : Column} {cond : Condition} (h : column.equalTo .null = .ok cond)
    (hrow : cond.selects db row = true) : (row.get column.name).isNull = true := by
  cases pure_ok_iff.mp h
  simpa [Condition.selects_iff, Condition.eval, Truth.ofBool_holds_iff] using hrow

theorem mem_missing (h : field ∈ key.missing payload) : field ∈ key.fields ∧ Object.get payload field = .null := by
  obtain ⟨hkey, hopen⟩ := List.mem_filter.mp h
  cases hget : Object.get payload field with
  | null => exact ⟨hkey, rfl⟩
  | _ => rw [hget] at hopen; cases hopen

/-- What is taken for equal to the values of a compound key has a null where they have one. -/
theorem asked_open {fields : List String}
    (hv : v = asked (.compound fields) payload ∨ (asked (.compound fields) payload).same v = true)
    (hfield : field ∈ fields) (hnull : Object.get payload field = .null) :
    ∃ parts, v = .object parts ∧ (field, .null) ∈ parts := by
  have hasked : (field, .null) ∈ Object.ofMembers (fields.map fun f => (f, Object.get payload f)) := by
    refine Object.mem_of_get? ?_
    rw [Object.get?_ofMembers_map, if_pos hfield, hnull]
  rcases hv with rfl | hsame
  · exact ⟨_, rfl, hasked⟩
  · cases v with
    | object parts =>
        simp only [asked, Value.same, Bool.and_eq_true, Value.sameMembers_eq_all, List.all_eq_true] at hsame
        have hfound := hsame.2 _ hasked
        cases hw : Object.get? field parts with
        | none => simp [hw] at hfound
        | some w =>
            rw [hw] at hfound
            cases Value.eq_null_of_same hfound
            exact ⟨parts, rfl, Object.mem_of_get? hw⟩
    | _ => simp [asked, Value.same, Value.worth?] at hsame

/-- A row that satisfies the condition on the key, or one that is taken for equal, is null where the key is open. -/
theorem asked_null (ha : key.Addresses m) (hv : v = key.asked payload ∨ (key.asked payload).same v = true)
    (hrow : c.SatisfiesMember m db row (key.name, v)) (hfield : field ∈ key.missing payload) :
    (row.get field).isNull = true := by
  obtain ⟨hkey, hnull⟩ := mem_missing hfield
  obtain ⟨cond, hcond, hsel⟩ := hrow
  rw [Catalog.memberCondition_name ha.plain, ha.unlinked] at hcond
  dsimp only [Model.cellCondition] at hcond
  cases key with
  | single f =>
      obtain rfl := List.mem_singleton.mp hkey
      obtain rfl : v = .null := hv.elim (·.trans hnull) fun hsame => Value.eq_null_of_same (hnull ▸ hsame)
      cases hcolumn : m.column? field with
      | none => simp [name, hcolumn, Model.compoundKey?, throw_ok_iff] at hcond
      | some column =>
          rw [name, hcolumn] at hcond
          rw [← Model.column?_name hcolumn]
          exact equalTo_null hcond hsel
  | compound fields =>
      obtain ⟨parts, rfl, hpart⟩ := asked_open hv hkey hnull
      rw [ha.apart fields rfl] at hcond
      cases hcompound : m.compoundKey? (.object parts) with
      | none => rw [hcompound] at hcond; cases hcond
      | some members =>
          rw [hcompound] at hcond
          obtain ⟨conds, hconds, rfl⟩ := map_ok_iff.mp hcond
          obtain ⟨column, hcolumn, hin⟩ := Model.compoundKey?_member hcompound hpart
          obtain ⟨cond, hc, hequal⟩ := forall₂_partner (mapM_ok_forall₂ hconds) hin
          rw [← show column.name = field from Model.column?_name hcolumn]
          exact equalTo_null hequal (Condition.selects_all_iff.mp hsel _ hc)

/-- Whatever guard is joined to the condition on the key, its rows are null where the key is open. -/
theorem merged_null (ha : key.Addresses m) {guard : Object} (hn : guard.keys.Nodup)
    (hrow : c.Satisfies m db row (.object (Guard.merge (key.condition payload) guard)))
    (hfield : field ∈ key.missing payload) :
    (row.get field).isNull = true := by
  have hget : Object.get? key.name (key.condition payload) = some (key.asked payload) := by simp [condition_eq, Object.get?]
  obtain ⟨v, horigin, hkeeps⟩ := Guard.merge_keeps hn hget
  exact asked_null ha (horigin.imp id And.right) (hkeeps Guard.conjunctive_satisfies hrow) hfield

end Key.UniqueKey

namespace Engine

theorem prepare_upsert {σ : Type} {e : Engine σ} {entity : String} {user : User} {data uniqueKey : Value} {start : Start}
    {before : HookContext} {p : Prepared} (h : e.prepare entity user start before (.upsert data uniqueKey) = .ok p) :
    ∃ key changes whole, Key.UniqueKey.ofValue before.uniqueKey = .ok key ∧ p.condition = key.condition p.payload ∧
      p.deed = .setOrCreate changes whole := by
  simp only [prepare, bind_ok_iff, pure_ok_iff] at h
  obtain ⟨_, _, key, hkey, whole, _, changes, _, _, _, rfl⟩ := h
  exact ⟨key, changes, whole, hkey, rfl, rfl⟩

/-- An upsert that comes to ask the storage leaves the rows alone: it does what creating a record does, or it ends in an
error with the database that the hooks before it left. -/
def SparesRows (e : Engine Database) (entity : String) (user : User) (data uniqueKey : Value) (db : Database) (p : Prepared)
    (db' : Database) : Prop :=
  (∃ changes whole, p.deed = .setOrCreate changes whole ∧
    (e.upsert entity user data uniqueKey).runOn db = (do
      let record ← e.ask p.payload (e.storage.create entity whole (some p.plan))
      e.conclude entity user "upsert" p record).runOn db') ∨
  ∃ failure, (e.upsert entity user data uniqueKey).runOn db = (.error failure, db')

variable {e : Engine Database} {c : Catalog} {clock : Clock} {entity : String} {m : Model}

/-- An upsert changes a row only if the row is null in every field of the unique key that the payload leaves open. If each
row has a value in one of these fields, as in those of the primary key, the rows are left alone. An upsert that does not
come to ask the storage writes nothing. -/
theorem keyless_upserts (hstore : e.storage = c.storage clock) (hm : c.model? entity = some m) (hr : e.rules.Proper)
    (user : User) (data uniqueKey : Value) (db : Database) :
    ((¬ ∃ start before p db', e.Reaches entity user (.upsert data uniqueKey) db start before p db') →
      ((e.upsert entity user data uniqueKey).runOn db).2 =
        ((do
          let start ← (e.permit entity user (.upsert data uniqueKey) : Except Failure Start)
          e.runHooks "before" "upsert" entity user start.context : Act Database HookContext).runOn db).2) ∧
    ∀ start before p db', e.Reaches entity user (.upsert data uniqueKey) db start before p db' →
      ∃ key, Key.UniqueKey.ofValue before.uniqueKey = .ok key ∧ (key.Addresses m →
        ((∃ row ∈ db'.rows m, (∀ field ∈ key.missing p.payload, (row.get field).isNull = true) ∧
            (e.upsert entity user data uniqueKey).runOn db = (do
              let record ← e.onRow c entity m row p
              e.conclude entity user "upsert" p record).runOn db') ∨
          e.SparesRows entity user data uniqueKey db p db') ∧
        ((∀ row ∈ db'.rows m, ∃ field ∈ key.missing p.payload, (row.get field).isNull = false) →
          e.SparesRows entity user data uniqueKey db p db')) := by
  refine ⟨write_unreached, fun start before p db' h => ?_⟩
  obtain ⟨key, changes, whole, hkey, hcond, hdeed⟩ := prepare_upsert h.prepared
  refine ⟨key, hkey, fun ha => ?_⟩
  have hcases : (∃ row ∈ db'.rows m, (∀ field ∈ key.missing p.payload, (row.get field).isNull = true) ∧
      (e.upsert entity user data uniqueKey).runOn db = (do
        let record ← e.onRow c entity m row p
        e.conclude entity user "upsert" p record).runOn db') ∨ e.SparesRows entity user data uniqueKey db p db' := by
    cases hfirst : c.firstRow db' m (Guard.merge p.condition start.permission) with
    | error cause =>
        obtain ⟨failure, hperform⟩ := perform_error (p := p) hstore hm hfirst
        exact .inr (.inr ⟨failure, h.run.trans (Act.runOn_bind_error hperform)⟩)
    | ok found =>
        cases found with
        | some row =>
            obtain ⟨hrow, hsat⟩ := Catalog.firstRow_some hfirst
            rw [hcond] at hsat
            refine .inl ⟨row, hrow, fun field hfield => ?_, h.run.trans ?_⟩
            · exact Key.UniqueKey.merged_null ha (Rules.filterFor_nodup hr (start_permission h.permitted)) hsat hfield
            · rw [Act.runOn_bind, Act.runOn_bind, perform_some hstore hm hfirst]
              rfl
        | none =>
            refine .inr (.inl ⟨changes, whole, hdeed, h.run.trans ?_⟩)
            rw [Act.runOn_bind, Act.runOn_bind, perform_none hstore hm hfirst, withoutRow, hdeed]
            rfl
  refine ⟨hcases, fun hfilled => hcases.resolve_left ?_⟩
  rintro ⟨row, hrow, hnull, -⟩
  obtain ⟨field, hfield, hgiven⟩ := hfilled row hrow
  rw [hnull field hfield] at hgiven
  cases hgiven

/-! Accounts that need no login. -/

def accountModel : Model where
  name := "Account"
  table := "accounts"
  columns := [{ name := "id", kind := .integer, isKey := true }, { name := "login", kind := .text, unique := true },
    { name := "owner", kind := .text }]

def accountCatalog : Catalog := ⟨[("Account", accountModel)]⟩

def accountEngine : Engine Database := { schema := accountCatalog.schema, storage := accountCatalog.storage }

def annsAccount : Row := [("id", .integer 1), ("login", .null), ("owner", .text "Ann")]

def annsDatabase : Database := { tables := [("Account", [annsAccount])] }

def bobsAccount : Object := [("owner", .text "Bob")]

def opening (field : String) : Write := .upsert (.object bobsAccount) (.text field)

def openingStart (field : String) : Start := { permission := [], data := .object bobsAccount, uniqueKey := .text field }

def openingPrepared (field : String) : Prepared :=
  { condition := [(field, .null)], deed := .setOrCreate bobsAccount bobsAccount, plan := {}, payload := bobsAccount
    data := .object bobsAccount }

theorem opening_reaches {field : String} (h : field = "id" ∨ field = "login") :
    accountEngine.Reaches "Account" (.principal {}) (opening field) annsDatabase (openingStart field)
      (untold "Account" (opening field) (openingStart field)) (openingPrepared field) annsDatabase := by
  rcases h with rfl | rfl <;> exact ⟨rfl, runHooks_none rfl, rfl, rfl⟩

theorem accountEngine_proper : accountEngine.rules.Proper := by
  intro entity r action ask p given hr
  cases hr

/-- An account without a number is a new one. -/
theorem numberless_account_opened :
    accountEngine.storage = accountCatalog.storage ∧ accountCatalog.model? "Account" = some accountModel ∧
    accountEngine.rules.Proper ∧
    accountEngine.Reaches "Account" (.principal {}) (opening "id") annsDatabase (openingStart "id")
      (untold "Account" (opening "id") (openingStart "id")) (openingPrepared "id") annsDatabase ∧
    accountEngine.SparesRows "Account" (.principal {}) (.object bobsAccount) (.text "id") annsDatabase (openingPrepared "id")
      annsDatabase := by
  have hreaches := opening_reaches (.inl rfl)
  obtain ⟨key, hkey, hcases⟩ :=
    (keyless_upserts rfl rfl accountEngine_proper (.principal {}) (.object bobsAccount) (.text "id") annsDatabase).2
      _ _ _ _ hreaches
  cases hkey
  refine ⟨rfl, rfl, accountEngine_proper, hreaches, (hcases ⟨by decide, rfl, nofun⟩).2 fun row hrow => ?_⟩
  obtain rfl := List.mem_singleton.mp (Database.mem_rows.mp hrow)
  exact ⟨"id", by decide, rfl⟩

def bobsDatabase : Database := { tables := [("Account", [[("id", .integer 1), ("login", .null), ("owner", .text "Bob")]])] }

/-- An account without a login takes the place of one that has no login either. -/
theorem loginless_account_overwritten :
    accountEngine.Reaches "Account" (.principal {}) (opening "login") annsDatabase (openingStart "login")
      (untold "Account" (opening "login") (openingStart "login")) (openingPrepared "login") annsDatabase ∧
    (accountModel.column? "login").map (fun column => (column.unique, column.nullable)) = some (true, true) ∧
    Object.get bobsAccount "login" = .null ∧
    (accountEngine.upsert "Account" (.principal {}) (.object bobsAccount) (.text "login")).runOn annsDatabase =
      (.ok (.value (.object [("id", .int 1), ("login", .null), ("owner", .text "Bob")])), bobsDatabase) ∧
    bobsDatabase.row? accountModel [.integer 1] ≠ annsDatabase.row? accountModel [.integer 1] := by
  have hreaches := @opening_reaches "login" (.inr rfl)
  have hupsert : (accountCatalog.storage.upsert "Account" [("login", .null)] bobsAccount bobsAccount (some {})).runOn
      annsDatabase = (.ok [("id", .int 1), ("login", .null), ("owner", .text "Bob")], bobsDatabase) := by cbv
  have hperform : (accountEngine.perform "Account" [("login", .null)] (openingPrepared "login")).runOn annsDatabase =
      (.ok [("id", .int 1), ("login", .null), ("owner", .text "Bob")], bobsDatabase) := ask_of hupsert
  refine ⟨hreaches, rfl, rfl, ?_, by decide⟩
  exact hreaches.run.trans ((Act.runOn_bind_of hperform).trans rfl)

end Engine

end RecordGraph
