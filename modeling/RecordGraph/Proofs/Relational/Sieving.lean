import RecordGraph.Proofs.Relational.Lookup
import RecordGraph.Proofs.Relational.Undoing

/-!
# Rows that are no duplicates

A sieve keeps a given row unless one of its identities has the cells of a row of the table, or of a row that was
kept before. Duplicates are told by texts and not by cells, and are noted before it is known whether their row
is kept. What is left of a batch is what the sieve keeps if texts tell the values of the identities apart as the
engine does, and no row that is skipped was noted under an identity that a later row shares.
-/

namespace RecordGraph

/-- A cell for each column. -/
abbrev Cells := Column → Cell

def Row.cells (r : Row) : Cells := fun column => r.get column.name

namespace Catalog

/-- What the columns take the given values of a row as. -/
def givenCells (row : Object) : Cells := fun column =>
  Condition.cellOf (do Work.bindColumn column (← column.coerce (Object.get row column.name)))

/-- The cells are the same in some columns. -/
def shares (columns : List Column) (own other : Cells) : Bool :=
  columns.all fun column => (own column).same (other column)

def clashesOn (taken : List Cells) (own : Cells) (columns : List Column) : Bool := taken.any (shares columns own)

/-- One of the identities is taken. -/
def clashes (m : Model) (taken : List Cells) (own : Cells) : Bool := (identities m).any (clashesOn taken own)

/-- The rows that clash with nothing that was taken, or with rows that were kept before. -/
def sieve (m : Model) : List Cells → List Object → List Object
  | _, [] => []
  | taken, row :: rows =>
    if clashes m taken (givenCells row) then sieve m taken rows
    else row :: sieve m (givenCells row :: taken) rows

/-- The identities under which a row is noted before one of them is found to be taken. -/
def notedUnder (m : Model) (taken : List Cells) (own : Cells) : List (List Column) :=
  (identities m).takeWhile fun columns => !clashesOn taken own columns

/-- No row shares an identity with an earlier row that was noted under it and skipped. -/
def Unspent (m : Model) : List Cells → List Object → Prop
  | _, [] => True
  | taken, row :: rows =>
    if clashes m taken (givenCells row) then
      (∀ columns ∈ notedUnder m taken (givenCells row), ∀ later ∈ rows,
        shares columns (givenCells later) (givenCells row) = false) ∧ Unspent m taken rows
    else Unspent m (givenCells row :: taken) rows

def decideUnspent (m : Model) : (taken : List Cells) → (rows : List Object) → Decidable (Unspent m taken rows)
  | _, [] => .isTrue trivial
  | taken, row :: rows =>
    if h : clashes m taken (givenCells row) then
      @decidable_of_iff _ ((∀ columns ∈ notedUnder m taken (givenCells row), ∀ later ∈ rows,
        shares columns (givenCells later) (givenCells row) = false) ∧ Unspent m taken rows) (by rw [Unspent, if_pos h])
        (@instDecidableAnd _ _ inferInstance (decideUnspent m taken rows))
    else
      @decidable_of_iff _ (Unspent m (givenCells row :: taken) rows) (by rw [Unspent, if_neg h])
        (decideUnspent m (givenCells row :: taken) rows)

instance (m : Model) (taken : List Cells) (rows : List Object) : Decidable (Unspent m taken rows) :=
  decideUnspent m taken rows

/-! ## Texts and cells -/

/-- The text of what a column takes a given value as. -/
def givenText (row : Object) (column : Column) : String :=
  match column.coerce (Object.get row column.name) with
  | .ok w => w.shown
  | .error _ => ""

/-- What is given for a column is taken, looked for as what is written, and told apart by its text from other
given values and from those of the table as the engine tells them apart. -/
structure ToldByTexts (m : Model) (db : Database) (rows : List Object) (column : Column) : Prop where
  taken : ∀ row ∈ rows, (Object.get row column.name).isNull = false →
    ∃ w, column.coerce (Object.get row column.name) = .ok w ∧ Work.bindColumn column w = .ok (givenCells row column) ∧
      column.equalTo (Object.get row column.name) = .ok (.compare .equal column.name (.ok (givenCells row column)))
  given : ∀ row ∈ rows, ∀ other ∈ rows, (Object.get row column.name).isNull = false →
    (Object.get other column.name).isNull = false →
      (givenText row column = givenText other column ↔ (givenCells row column).same (givenCells other column) = true)
  stored : ∀ row ∈ rows, ∀ r ∈ db.rows m, (Object.get row column.name).isNull = false →
    (r.get column.name).isNull = false →
      (givenText row column = (column.kind.read (r.get column.name)).shown ↔
        (givenCells row column).same (r.get column.name) = true)

/-- Texts tell the values of all identities apart. -/
def Told (m : Model) (db : Database) (rows : List Object) : Prop :=
  ∀ columns ∈ identities m, ∀ column ∈ columns, ToldByTexts m db rows column

def isGiven (columns : List Column) (row : Object) : Bool :=
  columns.all fun column => !(Object.get row column.name).isNull

def givenTexts (columns : List Column) (row : Object) : List String := columns.map (givenText row)

variable {m : Model} {db : Database} {rows batch : List Object} {row other : Object} {column : Column}
  {columns : List Column} {taken : List Cells} {own : Cells}

theorem isGiven_iff : isGiven columns row = true ↔ ∀ column ∈ columns, (Object.get row column.name).isNull = false := by
  simp [isGiven]

theorem givenValues?_eq : givenValues? columns row =
    if isGiven columns row then some (columns.map fun column => (column, Object.get row column.name)) else none := by
  unfold givenValues?
  induction columns with
  | nil => rfl
  | cons column columns ih =>
      rw [List.mapM_cons, ih]
      cases hv : Object.get row column.name with
      | null => simp [isGiven, hv, Value.isNull]
      | _ => cases hrest : isGiven columns row <;> simp_all [isGiven, Value.isNull]

theorem givenCells_null (h : (Object.get row column.name).isNull = true) : givenCells row column = .null := by
  cases hv : Object.get row column.name with
  | null =>
      simp only [givenCells, hv, Column.coerce, Work.bindColumn]
      cases column.kind <;> rfl
  | _ =>
      rw [hv] at h
      cases h

/-- Only what is given can be taken. -/
theorem isGiven_of_shares (h : shares columns (givenCells row) own = true) : isGiven columns row = true := by
  refine isGiven_iff.mpr fun column hcolumn => ?_
  have hsame := List.all_eq_true.mp h column hcolumn
  cases hnull : (Object.get row column.name).isNull with
  | false => rfl
  | true =>
      rw [givenCells_null hnull] at hsame
      cases hsame

section Told

variable (htold : ∀ column ∈ columns, ToldByTexts m db batch column)

include htold

theorem coerced_texts (hrow : row ∈ batch) (hgiven : isGiven columns row = true) :
    ((columns.map fun column => (column, Object.get row column.name)).mapM fun (column, v) =>
      Value.shown <$> column.coerce v) = .ok (givenTexts columns row) := by
  induction columns with
  | nil => rfl
  | cons column columns ih =>
      have hgiven := isGiven_iff.mp hgiven
      obtain ⟨w, hw, _⟩ := (htold column List.mem_cons_self).taken row hrow (hgiven column List.mem_cons_self)
      have hrest := ih (fun column hin => htold column (List.mem_cons_of_mem _ hin))
        (isGiven_iff.mpr fun column hin => hgiven column (List.mem_cons_of_mem _ hin))
      have htext : givenText row column = w.shown := by rw [givenText, hw]
      have htexts : givenTexts (column :: columns) row = w.shown :: givenTexts columns row := by
        rw [givenTexts, List.map_cons, htext, givenTexts]
      rw [List.map_cons, List.mapM_cons, hrest, htexts]
      dsimp only
      rw [hw]
      rfl

theorem givenTexts_eq_iff (hrow : row ∈ batch) (hother : other ∈ batch) (hgiven : isGiven columns row = true)
    (hgiven' : isGiven columns other = true) :
    givenTexts columns row = givenTexts columns other ↔ shares columns (givenCells row) (givenCells other) = true := by
  have hgiven := isGiven_iff.mp hgiven
  have hgiven' := isGiven_iff.mp hgiven'
  rw [givenTexts, givenTexts, List.map_inj_left, shares, List.all_eq_true]
  exact forall₂_congr fun column hin =>
    (htold column hin).given row hrow other hother (hgiven column hin) (hgiven' column hin)

theorem stored_texts_iff {r : Row} (hrow : row ∈ batch) (hr : r ∈ db.rows m) (hgiven : isGiven columns row = true)
    (hfilled : ∀ column ∈ columns, (r.get column.name).isNull = false) :
    givenTexts columns row = columns.map (fun column => (column.kind.read (r.get column.name)).shown) ↔
      shares columns (givenCells row) r.cells = true := by
  have hgiven := isGiven_iff.mp hgiven
  rw [givenTexts, List.map_inj_left, shares, List.all_eq_true]
  exact forall₂_congr fun column hin => (htold column hin).stored row hrow r hr (hgiven column hin) (hfilled column hin)

end Told

/-! ## What a sieve keeps -/

theorem sieve_sublist : (sieve m taken rows).Sublist rows := by
  induction rows generalizing taken with
  | nil => exact .slnil
  | cons row rows ih =>
      rw [sieve]
      split
      · exact ih.cons row
      · exact ih.cons_cons row

theorem not_clashes_iff : clashes m taken own = false ↔
    ∀ columns ∈ identities m, ∀ other ∈ taken, shares columns own other = false := by
  simp [clashes, clashesOn]

/-- What is kept clashes with nothing that was taken. -/
theorem sieve_apart : ∀ row ∈ sieve m taken rows, clashes m taken (givenCells row) = false := by
  induction rows generalizing taken with
  | nil => exact nofun
  | cons row rows ih =>
      intro kept hkept
      rw [sieve] at hkept
      split at hkept
      · exact ih kept hkept
      next hclash =>
        rcases List.mem_cons.mp hkept with rfl | hkept
        · exact Bool.eq_false_iff.mpr hclash
        · have hmore := not_clashes_iff.mp (ih kept hkept)
          exact not_clashes_iff.mpr fun columns hin other hother =>
            hmore columns hin other (List.mem_cons_of_mem _ hother)

/-- What is kept later clashes with nothing that was kept before. -/
theorem sieve_distinct : (sieve m taken rows).Pairwise fun first later =>
    ∀ columns ∈ identities m, shares columns (givenCells later) (givenCells first) = false := by
  induction rows generalizing taken with
  | nil => exact .nil
  | cons row rows ih =>
      rw [sieve]
      split
      · exact ih
      · refine .cons (fun later hlater columns hin => ?_) ih
        exact not_clashes_iff.mp (sieve_apart later hlater) columns hin _ List.mem_cons_self

/-! ## What is taken already -/

/-- The condition of rows that have the given values of a row in some columns. -/
def sameIn (columns : List Column) (row : Object) : Condition :=
  .all (columns.map fun column => .compare .equal column.name (.ok (givenCells row column)))

theorem sameIn_selects {r : Row} : (sameIn columns row).selects db r = true ↔
    shares columns (givenCells row) r.cells = true := by
  rw [sameIn, Condition.selects_all_iff, shares, List.all_eq_true, List.forall_mem_map]
  refine forall₂_congr fun column _ => ?_
  rw [Condition.selects_equal_iff]
  exact ⟨Cell.same_symm, Cell.same_symm⟩

theorem sameIn_operands {o : Except Failure Cell} (h : o ∈ (sameIn columns row).operands) : ∃ cell, o = .ok cell := by
  obtain ⟨cond, hcond, ho⟩ := Condition.mem_operands_all h
  obtain ⟨column, _, rfl⟩ := List.mem_map.mp hcond
  exact ⟨_, List.mem_singleton.mp ho⟩

/-- The texts that were noted under an identity tell which of some rows clash with what was taken. -/
def Knows (taken : List Cells) (rows : List Object) (columns : List Column) (texts : List (List String)) : Prop :=
  ∀ row ∈ rows, isGiven columns row = true →
    (givenTexts columns row ∈ texts ↔ clashesOn taken (givenCells row) columns = true)

/-- The cells of the rows of the table. -/
def tableCells (m : Model) (db : Database) : List Cells := (db.rows m).map Row.cells

theorem clashesOn_table : clashesOn (tableCells m db) own columns = true ↔
    ∃ r ∈ db.rows m, shares columns own r.cells = true := by
  simp [clashesOn, tableCells]

theorem givenValues?_all (rows : List Object) : rows.filterMap (givenValues? columns) =
    (rows.filter (isGiven columns)).map fun row => columns.map fun column => (column, Object.get row column.name) := by
  induction rows with
  | nil => rfl
  | cons row rows ih =>
      rw [List.filterMap_cons, List.filter_cons, givenValues?_eq, ih]
      cases isGiven columns row <;> rfl

theorem conditions_run (htold : ∀ column ∈ columns, ToldByTexts m db batch column) :
    ((batch.filterMap (givenValues? columns)).mapM fun vs => do
      return Condition.all (← vs.mapM fun (column, v) => column.equalTo v) : Query (List Condition)).runOn db =
        (.ok ((batch.filter (isGiven columns)).map (sameIn columns)), db) := by
  rw [givenValues?_all, List.mapM_map]
  refine Act.runOn_mapM_of fun row hrow => ?_
  obtain ⟨hrow, hgiven⟩ := List.mem_filter.mp hrow
  have hgiven := isGiven_iff.mp hgiven
  dsimp only [Function.comp]
  rw [List.mapM_map]
  refine (Act.runOn_bind_of (Act.runOn_mapM_of fun column hcolumn => ?_)).trans rfl
  obtain ⟨_, _, _, hequal⟩ := (htold column hcolumn).taken row hrow (hgiven column hcolumn)
  exact Act.runOn_liftM.trans (by rw [hequal])

/-- What is found in the table under an identity tells which rows of the batch clash with it. -/
theorem takenTexts_run (htold : ∀ column ∈ columns, ToldByTexts m db batch column) :
    ∃ texts, (takenTexts m columns batch).runOn db = (.ok texts, db) ∧ Knows (tableCells m db) batch columns texts := by
  by_cases hnone : (batch.filterMap (givenValues? columns)).isEmpty = true
  · refine ⟨[], ?_, fun row hrow hgiven => ?_⟩
    · rw [takenTexts]
      exact congrArg (Act.runOn · db) (if_pos hnone)
    · rw [givenValues?_all, List.isEmpty_iff, List.map_eq_nil_iff, List.filter_eq_nil_iff] at hnone
      exact absurd hgiven (hnone row hrow)
  · let found := db.select m (.any ((batch.filter (isGiven columns)).map (sameIn columns)))
    have hfound {r : Row} : r ∈ found ↔ r ∈ db.rows m ∧
        ∃ row ∈ batch, isGiven columns row = true ∧ shares columns (givenCells row) r.cells = true := by
      simp only [found, Database.select, List.mem_filter, Condition.selects_any_iff, List.mem_map]
      constructor
      · rintro ⟨hr, _, ⟨row, hrow, rfl⟩, hsel⟩
        exact ⟨hr, row, hrow.1, hrow.2, sameIn_selects.mp hsel⟩
      · rintro ⟨hr, row, hrow, hgiven, hshares⟩
        exact ⟨hr, _, ⟨row, ⟨hrow, hgiven⟩, rfl⟩, sameIn_selects.mpr hshares⟩
    refine ⟨found.map fun r => columns.map fun column => (column.kind.read (r.get column.name)).shown, ?_, ?_⟩
    · rw [takenTexts]
      refine (congrArg (Act.runOn · db) (if_neg hnone)).trans ?_
      refine (Act.runOn_bind_of (conditions_run htold)).trans ?_
      have hbind : (Condition.any ((batch.filter (isGiven columns)).map (sameIn columns))).bind = .ok () := by
        refine Condition.bind_ok fun o ho => ?_
        rw [Condition.operands] at ho
        split at ho
        · cases ho
        · obtain ⟨cond, hcond, ho⟩ := Condition.mem_operandsOf.mp ho
          obtain ⟨row, _, rfl⟩ := List.mem_map.mp hcond
          exact sameIn_operands ho
      refine (Act.runOn_bind_of (t := db) (a := ()) (Act.runOn_liftM.trans (by rw [hbind]))).trans ?_
      rfl
    · intro row hrow hgiven
      have hfilled {r : Row} {other : Object} (h : shares columns (givenCells other) r.cells = true) :
          ∀ column ∈ columns, (r.get column.name).isNull = false := fun column hcolumn =>
        (Cell.same_iff.mp (List.all_eq_true.mp h column hcolumn)).2.1
      rw [clashesOn_table, List.mem_map]
      constructor
      · rintro ⟨r, hr, htexts⟩
        obtain ⟨hr, other, _, _, hshares⟩ := hfound.mp hr
        exact ⟨r, hr, (stored_texts_iff htold hrow hr hgiven (hfilled hshares)).mp htexts.symm⟩
      · rintro ⟨r, hr, hshares⟩
        refine ⟨r, hfound.mpr ⟨hr, row, hrow, hgiven, hshares⟩, ?_⟩
        exact ((stored_texts_iff htold hrow hr hgiven (hfilled hshares)).mpr hshares).symm

/-! ## What is noted -/

section Knows

variable {later : List Object} {texts : List (List String)}

theorem shares_symm {other : Cells} (h : shares columns own other = true) : shares columns other own = true :=
  List.all_eq_true.mpr fun column hcolumn => Cell.same_symm (List.all_eq_true.mp h column hcolumn)

theorem not_clashesOn_of_not_given (h : isGiven columns row = false) :
    clashesOn taken (givenCells row) columns = false := by
  refine List.any_eq_false.mpr fun other _ hshares => ?_
  rw [isGiven_of_shares hshares] at h
  cases h

theorem Knows.tail (h : Knows taken (row :: later) columns texts) : Knows taken later columns texts :=
  fun other hother => h other (List.mem_cons_of_mem _ hother)

theorem Knows.not_given (h : Knows taken later columns texts) (hrow : isGiven columns row = false) :
    Knows (givenCells row :: taken) later columns texts := by
  intro other hother hgiven
  rw [h other hother hgiven, clashesOn, clashesOn, List.any_cons]
  have hnone : shares columns (givenCells other) (givenCells row) = false := by
    rw [Bool.eq_false_iff]
    intro hshares
    rw [isGiven_of_shares (shares_symm hshares)] at hrow
    cases hrow
  rw [hnone, Bool.false_or]

theorem Knows.noted (h : Knows taken later columns texts) (htold : ∀ column ∈ columns, ToldByTexts m db batch column)
    (hrow : row ∈ batch) (hlater : ∀ other ∈ later, other ∈ batch) (hgiven : isGiven columns row = true) :
    Knows (givenCells row :: taken) later columns (givenTexts columns row :: texts) := by
  intro other hother hgiven'
  rw [List.mem_cons, givenTexts_eq_iff htold (hlater other hother) hrow hgiven' hgiven, h other hother hgiven',
    clashesOn, clashesOn, List.any_cons, Bool.or_eq_true]

/-- It does no harm that a skipped row was noted if no later row shares what it was noted for. -/
theorem Knows.spent (h : Knows taken later columns texts) (htold : ∀ column ∈ columns, ToldByTexts m db batch column)
    (hrow : row ∈ batch) (hlater : ∀ other ∈ later, other ∈ batch) (hgiven : isGiven columns row = true)
    (hunshared : ∀ other ∈ later, shares columns (givenCells other) (givenCells row) = false) :
    Knows taken later columns (givenTexts columns row :: texts) := by
  intro other hother hgiven'
  rw [List.mem_cons, givenTexts_eq_iff htold (hlater other hother) hrow hgiven' hgiven, h other hother hgiven',
    hunshared other hother]
  simp

end Knows

/-- A row is noted under its identities until one of them clashes. -/
theorem note_run {groups : List (List Column)} {seen : List (List (List String))} {later : List Object}
    (htold : ∀ columns ∈ groups, ∀ column ∈ columns, ToldByTexts m db batch column) (hrow : row ∈ batch)
    (hlater : ∀ other ∈ later, other ∈ batch) (hseen : List.Forall₂ (Knows taken (row :: later)) groups seen) :
    ∃ seen', note row groups seen = .ok (groups.any (clashesOn taken (givenCells row)), seen') ∧
      (groups.any (clashesOn taken (givenCells row)) = false →
        List.Forall₂ (Knows (givenCells row :: taken) later) groups seen') ∧
      (groups.any (clashesOn taken (givenCells row)) = true →
        (∀ columns ∈ groups.takeWhile fun columns => !clashesOn taken (givenCells row) columns, ∀ other ∈ later,
          shares columns (givenCells other) (givenCells row) = false) →
        List.Forall₂ (Knows taken later) groups seen') := by
  induction hseen with
  | nil => exact ⟨[], rfl, fun _ => .nil, fun h => nomatch h⟩
  | @cons columns texts groups seen hknows hrest ih =>
      have htold' := htold columns List.mem_cons_self
      have hrest' : List.Forall₂ (Knows taken later) groups seen := hrest.imp fun _ _ h => h.tail
      obtain ⟨seen', hnote, hnew, hold⟩ := ih fun columns hin => htold columns (List.mem_cons_of_mem _ hin)
      rw [note, givenValues?_eq, List.any_cons]
      cases hgiven : isGiven columns row with
      | false =>
          have hclash : clashesOn taken (givenCells row) columns = false := not_clashesOn_of_not_given hgiven
          refine ⟨texts :: seen', by simp [hnote, hclash], fun hany => ?_, fun hany hunshared => ?_⟩
          · rw [hclash, Bool.false_or] at hany
            exact .cons (hknows.tail.not_given hgiven) (hnew hany)
          · rw [hclash, Bool.false_or] at hany
            rw [List.takeWhile_cons_of_pos (by simp [hclash])] at hunshared
            exact .cons hknows.tail (hold hany fun columns hin => hunshared columns (List.mem_cons_of_mem _ hin))
      | true =>
          have htexts := coerced_texts htold' hrow hgiven
          cases hclash : clashesOn taken (givenCells row) columns with
          | true =>
              -- The walk ends here: the texts of the identities that come later stay as they are.
              have hin : texts.contains (givenTexts columns row) = true :=
                List.contains_iff_mem.mpr ((hknows row List.mem_cons_self hgiven).mpr hclash)
              refine ⟨texts :: seen, ?_, fun hany => (nomatch hany), fun _ _ => .cons hknows.tail hrest'⟩
              simp only [if_true, htexts]
              exact if_pos hin
          | false =>
              have hin : texts.contains (givenTexts columns row) = false := by
                rw [Bool.eq_false_iff, Ne, List.contains_iff_mem, hknows row List.mem_cons_self hgiven, hclash]
                exact Bool.false_ne_true
              refine ⟨(givenTexts columns row :: texts) :: seen', ?_, fun hany => ?_, fun hany hunshared => ?_⟩
              · simp only [if_true, htexts]
                refine (if_neg (by rw [hin]; exact Bool.false_ne_true)).trans ?_
                rw [hnote]
                rfl
              · exact .cons (hknows.tail.noted htold' hrow hlater hgiven) (hnew hany)
              · rw [List.takeWhile_cons_of_pos (by simp [hclash])] at hunshared
                refine .cons (hknows.tail.spent htold' hrow hlater hgiven (hunshared columns List.mem_cons_self)) ?_
                exact hold hany fun columns hin => hunshared columns (List.mem_cons_of_mem _ hin)

/-- What is kept of some rows is what the sieve keeps. -/
theorem notes_run {k : Kept} (htold : Told m db batch) (hrows : ∀ row ∈ rows, row ∈ batch)
    (hseen : List.Forall₂ (Knows taken rows) (identities m) k.seen) (hunspent : Unspent m taken rows) :
    ∃ seen, (rows.foldlM (fun (k : Kept) row => do
      let (repeated, seen) ← Act.ofExcept (note row (identities m) k.seen)
      return { seen, rows := if repeated then k.rows else k.rows ++ [row] } : Kept → Object → Query Kept) k).runOn db =
        (.ok ⟨seen, k.rows ++ sieve m taken rows⟩, db) := by
  -- Along the rows, the texts noted so far tell which of those to come clash with what was taken so far.
  induction rows generalizing taken k with
  | nil => exact ⟨k.seen, by rw [sieve, List.append_nil]; rfl⟩
  | cons row rows ih =>
      have hrows' : ∀ other ∈ rows, other ∈ batch := fun other hin => hrows other (List.mem_cons_of_mem _ hin)
      obtain ⟨seen', hnote, hnew, hold⟩ := note_run htold (hrows row List.mem_cons_self) hrows' hseen
      rw [Unspent] at hunspent
      rw [List.foldlM_cons, sieve]
      have hstep : (do
          let (repeated, seen) ← Act.ofExcept (note row (identities m) k.seen)
          return { seen, rows := if repeated then k.rows else k.rows ++ [row] } : Query Kept).runOn db =
            (.ok ⟨seen', if clashes m taken (givenCells row) then k.rows else k.rows ++ [row]⟩, db) := by
        rw [hnote]
        rfl
      cases hclash : clashes m taken (givenCells row) with
      | true =>
          rw [hclash, if_pos rfl] at hunspent hstep
          obtain ⟨seen, hrun⟩ := ih (k := ⟨seen', k.rows⟩) hrows' (hold hclash hunspent.1) hunspent.2
          exact ⟨seen, (Act.runOn_bind_of hstep).trans (by rw [hrun, if_pos rfl])⟩
      | false =>
          rw [hclash, if_neg Bool.false_ne_true] at hunspent hstep
          obtain ⟨seen, hrun⟩ := ih (k := ⟨seen', k.rows ++ [row]⟩) hrows' (hnew hclash) hunspent
          refine ⟨seen, (Act.runOn_bind_of hstep).trans ?_⟩
          rw [hrun, if_neg Bool.false_ne_true, List.append_assoc, List.singleton_append]

/-- The rows that are no duplicates are those that the sieve keeps. -/
theorem withoutDuplicates_run (htold : Told m db rows) (hunspent : Unspent m (tableCells m db) rows) :
    (withoutDuplicates m rows).runOn db = (.ok (sieve m (tableCells m db) rows), db) := by
  have htaken : ∀ groups : List (List Column), (∀ columns ∈ groups, ∀ column ∈ columns, ToldByTexts m db rows column) →
      ∃ seen, (groups.mapM fun columns => takenTexts m columns rows).runOn db = (.ok seen, db) ∧
        List.Forall₂ (Knows (tableCells m db) rows) groups seen := by
    intro groups htold
    induction groups with
    | nil => exact ⟨[], rfl, .nil⟩
    | cons columns groups ih =>
        obtain ⟨texts, hrun, hknows⟩ := takenTexts_run (htold columns List.mem_cons_self)
        obtain ⟨seen, hrest, hall⟩ := ih fun columns hin => htold columns (List.mem_cons_of_mem _ hin)
        refine ⟨texts :: seen, ?_, .cons hknows hall⟩
        rw [List.mapM_cons]
        exact (Act.runOn_bind_of hrun).trans ((Act.runOn_bind_of hrest).trans rfl)
  obtain ⟨seen, hrun, hknows⟩ := htaken (identities m) htold
  obtain ⟨seen', hfold⟩ := notes_run (k := ⟨seen, []⟩) htold (fun _ hin => hin) hknows hunspent
  rw [withoutDuplicates]
  refine (Act.runOn_bind_of hrun).trans ?_
  exact (Act.runOn_bind_of hfold).trans rfl

end Catalog

end RecordGraph
