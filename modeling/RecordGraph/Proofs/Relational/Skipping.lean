import RecordGraph.Proofs.Relational.Session.Inserting

/-!
# Batches without their duplicates

What is left of a batch after its duplicates were skipped is what a sieve keeps of it. The rows that are left share
no identity with the table nor with each other, so that to write them breaks no constraint of uniqueness.
-/

namespace RecordGraph

theorem StorageFault.ofEngine_cause {entity : Option String} {e : EngineError} :
    (StorageFault.ofEngine entity e).cause = some e := by
  unfold ofEngine
  dsimp only
  split <;> (try split) <;> (try split) <;> (try split) <;> (try split) <;> rfl

theorem Query.told_ofUniqueness {name : Option String} {failure : Failure}
    (h : (Query.told name failure).OfUniqueness) : failure.OfUniqueness := by
  cases failure with
  | engine e =>
      obtain ⟨e', he, hunique⟩ := h
      cases StorageFault.ofEngine_cause.symm.trans he
      exact hunique
  | _ => exact h

namespace Catalog

variable {c : Catalog} {m : Model} {entity : String} {db : Database} {rows : List Object} {column : Column}

/-! ## Writing what is left -/

/-- The rows of a batch are written as they are given: they set columns only, no default stands in for what is
missing of an identity, and the numbers that the table assigns come last. -/
structure WrittenAsGiven (m : Model) (db : Database) (rows : List Object) : Prop where
  names : (m.columns.map (·.name)).Nodup
  defaults : ∀ columns ∈ identities m, ∀ column ∈ columns, column.default? = none
  keys : ∀ row ∈ rows, (Object.keys row).Nodup
  plain : ∀ row ∈ rows, ∀ kv ∈ row, m.link? kv.1 = none
  numbered : m.isNumbered = true → Numbered m (db.rowsOf m.name)
  last : m.isNumbered = true → rows.Pairwise fun first later => LeavesNumber m first → LeavesNumber m later
  room : (db.rowsOf m.name).length + rows.length ≤ ColumnKind.greatestInteger.toNat

theorem WrittenAsGiven.admits (h : WrittenAsGiven m db rows) :
    Admits m (db.rowsOf m.name) (sieve m (tableCells m db) rows) where
  apart row hrow columns hcolumns r hr :=
    not_clashes_iff.mp (sieve_apart row hrow) columns hcolumns _ (List.mem_map_of_mem (Database.mem_rows.mpr hr))
  distinct := sieve_distinct
  numbered := h.numbered
  last hn := (h.last hn).sublist sieve_sublist
  room := by
    have hlength : (sieve m (tableCells m db) rows).length ≤ rows.length := sieve_sublist.length_le
    have hroom := h.room
    omega

/-- To create rows that the table admits breaks no constraint of uniqueness. -/
theorem createMany_admitted {failure : Failure} {db' : Database} (hc : c.WellFormed) (hm : c.model? entity = some m)
    (hnames : (m.columns.map (·.name)).Nodup)
    (hdefaults : ∀ columns ∈ identities m, ∀ column ∈ columns, column.default? = none)
    (hkeys : ∀ row ∈ rows, (Object.keys row).Nodup) (hplain : ∀ row ∈ rows, ∀ kv ∈ row, m.link? kv.1 = none)
    (hadmits : Admits m (db.rowsOf m.name) rows)
    (h : (c.createMany entity rows false).runOn db = (.error failure, db')) : ¬ failure.OfUniqueness := by
  rw [createMany, Act.runOn_bind, Act.runOn_liftM, model_ok_iff.mpr hm] at h
  dsimp only at h
  rw [faulting_run, if_neg Bool.false_ne_true, pure_bind, Query.write_run] at h
  have havoids := Work.createAll_avoids hc ⟨entity, mem_of_model? hm⟩ hnames hdefaults hkeys hplain hadmits
  split at h
  next => cases h
  next heq =>
    split at heq
    next => cases heq
    next hrun =>
      cases heq
      cases h
      exact fun hbad => havoids.spared hrun (Query.told_ofUniqueness (Query.told_ofUniqueness hbad))

/-- What is left of a batch is what the sieve keeps. If it is written as it is given, to create the batch does not
fail for its uniqueness, and what is created is what the sieve keeps. -/
theorem duplicates_sieved (hc : c.WellFormed) (hm : c.model? entity = some m) (htold : Told m db rows)
    (hunspent : Unspent m (tableCells m db) rows) :
    (withoutDuplicates m rows).runOn db = (.ok (sieve m (tableCells m db) rows), db) ∧
      (WrittenAsGiven m db rows → ∀ failure db',
        (c.createMany entity rows true).runOn db = (.error failure, db') → ¬ failure.OfUniqueness) ∧
      ∀ n db', (c.createMany entity rows true).runOn db = (.ok n, db') →
        n = (sieve m (tableCells m db) rows).length := by
  have hkept := withoutDuplicates_run htold hunspent
  have hrun : (c.createMany entity rows true).runOn db =
      (c.createMany entity (sieve m (tableCells m db) rows) false).runOn db := by
    rw [createMany_run (model_ok_iff.mpr hm), hkept]
  refine ⟨hkept, fun hwritten failure db' h => ?_, fun n db' h => createMany_count (hrun ▸ h)⟩
  exact createMany_admitted hc hm hwritten.names hwritten.defaults
    (fun row hrow => hwritten.keys row (sieve_sublist.subset hrow))
    (fun row hrow => hwritten.plain row (sieve_sublist.subset hrow)) hwritten.admits (hrun ▸ h)

/-! ## Integers and texts -/

/-- Texts tell the values of a column apart if they tell the values that its cells read as apart as the engine tells
the cells apart. -/
theorem told_of_forms {α : Type} (value : α → Value) (cell : α → Cell)
    (hshown : ∀ a b, (value a).shown = (value b).shown ↔ (cell a).same (cell b) = true)
    (hread : ∀ a, column.kind.read (cell a) = value a)
    (hrows : ∀ row ∈ rows, (Object.get row column.name).isNull = false → ∃ a,
      column.coerce (Object.get row column.name) = .ok (value a) ∧ Work.bindColumn column (value a) = .ok (cell a) ∧
      column.equalTo (Object.get row column.name) = .ok (.compare .equal column.name (.ok (cell a))))
    (hstored : ∀ r ∈ db.rows m, (r.get column.name).isNull = false → ∃ a, r.get column.name = cell a) :
    ToldByTexts m db rows column := by
  have hgiven {row : Object} (hrow : row ∈ rows) (hnull : (Object.get row column.name).isNull = false) : ∃ a,
      givenText row column = (value a).shown ∧ givenCells row column = cell a ∧
      column.coerce (Object.get row column.name) = .ok (value a) ∧ Work.bindColumn column (value a) = .ok (cell a) ∧
      column.equalTo (Object.get row column.name) = .ok (.compare .equal column.name (.ok (cell a))) := by
    obtain ⟨a, hcoerce, hbind, hequal⟩ := hrows row hrow hnull
    refine ⟨a, by rw [givenText, hcoerce], ?_, hcoerce, hbind, hequal⟩
    rw [givenCells, hcoerce]
    exact congrArg Condition.cellOf hbind
  refine ⟨fun row hrow hnull => ?_, fun row hrow other hother hnull hnull' => ?_,
    fun row hrow r hr hnull hfilled => ?_⟩
  · obtain ⟨a, _, hcell, hcoerce, hbind, hequal⟩ := hgiven hrow hnull
    exact ⟨value a, hcoerce, hcell ▸ hbind, hcell ▸ hequal⟩
  · obtain ⟨a, htext, hcell, _⟩ := hgiven hrow hnull
    obtain ⟨b, htext', hcell', _⟩ := hgiven hother hnull'
    rw [htext, htext', hcell, hcell', hshown]
  · obtain ⟨a, htext, hcell, _⟩ := hgiven hrow hnull
    obtain ⟨b, hb⟩ := hstored r hr hfilled
    rw [htext, hcell, hb, hread, hshown]

/-- Integers in an integer column or texts in a text column, wherever something is given or stored. -/
def PlainIn (m : Model) (db : Database) (rows : List Object) (column : Column) : Prop :=
  (column.kind = .integer ∧
    (∀ row ∈ rows, Object.get row column.name = .null ∨ ∃ n, Object.get row column.name = .int n ∧ Column.Fits n) ∧
    ∀ r ∈ db.rows m, r.get column.name = .null ∨ ∃ n, r.get column.name = .integer n) ∨
  (column.kind = .text ∧
    (∀ row ∈ rows, Object.get row column.name = .null ∨ ∃ s, Object.get row column.name = .text s) ∧
    ∀ r ∈ db.rows m, r.get column.name = .null ∨ ∃ s, r.get column.name = .text s)

theorem PlainIn.told (h : PlainIn m db rows column) : ToldByTexts m db rows column := by
  rcases h with ⟨hk, hrows, hstored⟩ | ⟨hk, hrows, hstored⟩
  · refine told_of_forms .int .integer (fun a b => ?_) (fun a => by rw [hk]; rfl) (fun row hrow hnull => ?_)
      fun r hr hfilled => (hstored r hr).resolve_left fun hnone => by rw [hnone] at hfilled; cases hfilled
    · rw [Value.shown_int_inj, Cell.same_integer_iff]
    · obtain ⟨n, hn, hfits⟩ := (hrows row hrow).resolve_left fun hnone => by rw [hnone] at hnull; cases hnull
      have hsought := Column.soughtAs_int hk hfits
      rw [hn]
      refine ⟨n, Column.coerce_int hk, ?_, ?_⟩
      · rw [← hsought, ← hk]
        rfl
      · rw [Column.equalTo_compares rfl (Column.coerce_int hk) rfl, hsought]
  · refine told_of_forms .text .text (fun a b => ?_) (fun a => by rw [hk]; rfl) (fun row hrow hnull => ?_)
      fun r hr hfilled => (hstored r hr).resolve_left fun hnone => by rw [hnone] at hfilled; cases hfilled
    · simp [Value.shown, Cell.same_iff, Cell.isNull, Cell.rank]
    · obtain ⟨s, hs⟩ := (hrows row hrow).resolve_left fun hnone => by rw [hnone] at hnull; cases hnull
      have hsought : column.soughtAs .text (.text s) = .ok (.text s) := Column.soughtAs_text hk
      rw [hs]
      refine ⟨s, Column.coerce_text hk, ?_, ?_⟩
      · rw [← hsought, ← hk]
        rfl
      · rw [Column.equalTo_compares rfl (Column.coerce_text hk) rfl, hsought]

/-! Accounts, which are known by their number and by their address. -/

def accountModel : Model :=
  { name := "Account", table := "accounts"
    columns := [{ name := "id", kind := .integer, isKey := true }, { name := "email", kind := .text, unique := true }] }

def accountCatalog : Catalog := ⟨[("Account", accountModel)]⟩

def zoesRow : Row := [("id", .integer 9), ("email", .text "z@x.org")]

def accountDatabase : Database := { tables := [("Account", [zoesRow])] }

def account (id : Int) (email : String) : Object := [("id", .int id), ("email", .text email)]

/-- The second account has the address of the first, the third one the number of an account of the table. The last
one leaves its number open. -/
def newAccounts : List Object :=
  [account 1 "a@x.org", account 2 "a@x.org", account 9 "b@x.org", account 3 "c@x.org", [("email", .text "d@x.org")]]

theorem accountTable : tableCells accountModel accountDatabase = [zoesRow.cells] := by
  have hrows : accountDatabase.rows accountModel = [zoesRow] := by cbv
  rw [tableCells, hrows]
  rfl

theorem newAccounts_plain : ∀ columns ∈ identities accountModel, ∀ column ∈ columns,
    PlainIn accountModel accountDatabase newAccounts column := by
  have hrows {r : Row} (hr : r ∈ accountDatabase.rows accountModel) : r = zoesRow :=
    List.mem_singleton.mp (Database.mem_rows.mp hr)
  intro columns hcolumns column hcolumn
  rcases List.mem_pair.mp hcolumns with rfl | rfl
  · cases List.mem_singleton.mp hcolumn
    refine .inl ⟨rfl, ?_, fun r hr => .inr ⟨9, by rw [hrows hr]; rfl⟩⟩
    simp [newAccounts, account, Object.get, Object.get?, Column.Fits, ColumnKind.greatestInteger]
  · cases List.mem_singleton.mp hcolumn
    refine .inr ⟨rfl, ?_, fun r hr => .inr ⟨"z@x.org", by rw [hrows hr]; rfl⟩⟩
    simp [newAccounts, account, Object.get, Object.get?]

theorem newAccounts_written : WrittenAsGiven accountModel accountDatabase newAccounts where
  names := by decide
  defaults := by decide
  keys := by decide
  plain := by decide
  numbered _ r hr := ⟨9, by rw [List.mem_singleton.mp hr]; rfl⟩
  last _ := by decide
  room := by decide

theorem accounts_sieved :
    accountCatalog.WellFormed ∧ accountCatalog.model? "Account" = some accountModel ∧
    Told accountModel accountDatabase newAccounts ∧
    Unspent accountModel (tableCells accountModel accountDatabase) newAccounts ∧
    WrittenAsGiven accountModel accountDatabase newAccounts ∧
    (withoutDuplicates accountModel newAccounts).runOn accountDatabase =
      (.ok [account 1 "a@x.org", account 3 "c@x.org", [("email", .text "d@x.org")]], accountDatabase) ∧
    ∀ failure db', (accountCatalog.createMany "Account" newAccounts true).runOn accountDatabase =
      (.error failure, db') → ¬ failure.OfUniqueness := by
  have hc : accountCatalog.WellFormed := by
    constructor <;> simp [accountCatalog, accountModel, Model.link?]
  have htold : Told accountModel accountDatabase newAccounts := fun columns hcolumns column hcolumn =>
    (newAccounts_plain columns hcolumns column hcolumn).told
  have hunspent : Unspent accountModel (tableCells accountModel accountDatabase) newAccounts := by
    rw [accountTable]
    decide
  have hm : accountCatalog.model? "Account" = some accountModel := rfl
  obtain ⟨hkept, hunique, _⟩ := duplicates_sieved hc hm htold hunspent
  rw [accountTable] at hkept
  exact ⟨hc, hm, htold, hunspent, newAccounts_written, hkept, hunique newAccounts_written⟩

/-- The third account shares nothing with the first, which alone is kept. It is skipped for its number, under which the
second one was noted before it was skipped for its address. -/
def spentAccounts : List Object := [account 1 "a@x.org", account 2 "a@x.org", account 2 "c@x.org"]

theorem spentNumber_skipped :
    (withoutDuplicates accountModel spentAccounts).runOn accountDatabase =
      (.ok [account 1 "a@x.org"], accountDatabase) ∧
    sieve accountModel (tableCells accountModel accountDatabase) spentAccounts =
      [account 1 "a@x.org", account 2 "c@x.org"] := by
  refine ⟨by cbv, ?_⟩
  rw [accountTable]
  rfl

end Catalog

end RecordGraph
