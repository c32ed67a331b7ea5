import RecordGraph.Proofs.Relational.Lookup

/-!
# Storable values

An integer beyond 64 bits is handed to no engine. Every other value is taken or refused, and what the
tables of a database hold can be read and written again.
-/

namespace RecordGraph

/-- A failure that a storage tells as a fault. -/
def Failure.OfStorage : Failure → Prop
  | .fault _ | .engine _ => True
  | _ => False

def Value.Fits : Value → Prop
  | .int n => Column.Fits n
  | _ => True

def Cell.Fits : Cell → Prop
  | .integer n => Column.Fits n
  | _ => True

/-- A result as told, unless the engine or the storage refuses. -/
def Handed {α : Type} (P : α → Prop) : Except Failure α → Prop
  | .ok a => P a
  | .error e => e.OfStorage

/-- Whatever a value is coerced to can be stored. -/
def Column.Takes (column : Column) (v : Value) : Prop := ∀ w, column.coerce v = .ok w → w.Fits

def Row.Fits (r : Row) : Prop := ∀ kv ∈ r, Cell.Fits kv.2

def Database.Fits (db : Database) : Prop := ∀ name, ∀ row ∈ db.rowsOf name, Row.Fits row

/-! ## Results -/

namespace Handed

variable {α β : Type} {P : α → Prop} {Q : β → Prop} {x : Except Failure α}

theorem bind {f : α → Except Failure β} (h : Handed P x) (hf : ∀ a, P a → Handed Q (f a)) :
    Handed Q (x >>= f) := by
  cases x with
  | ok a => exact hf a h
  | error e => exact h

theorem mono {Q : α → Prop} (h : Handed P x) (hpq : ∀ a, P a → Q a) : Handed Q x := by
  cases x with
  | ok a => exact hpq a h
  | error e => exact h

theorem map {f : α → β} (h : Handed P x) (hf : ∀ a, P a → Q (f a)) : Handed Q (f <$> x) := by
  cases x with
  | ok a => exact hf a h
  | error e => exact h

theorem foldlM {f : α → β → Except Failure α} {xs : List β} {a : α} (ha : P a)
    (hf : ∀ b ∈ xs, ∀ a, P a → Handed P (f a b)) : Handed P (xs.foldlM f a) := by
  induction xs generalizing a with
  | nil => exact ha
  | cons b xs ih =>
      rw [List.foldlM_cons]
      exact (hf b List.mem_cons_self a ha).bind fun a' ha' =>
        ih ha' fun b' hb' => hf b' (List.mem_cons_of_mem _ hb')

theorem cons {xs : Except Failure (List α)} (h : Handed P x) (hxs : Handed (fun as => ∀ a ∈ as, P a) xs) :
    Handed (fun as => ∀ a ∈ as, P a) (do return (← x) :: (← xs)) :=
  h.bind fun _ ha => hxs.bind fun _ has => List.forall_mem_cons.mpr ⟨ha, has⟩

theorem mapM {f : β → Except Failure α} {xs : List β} (hf : ∀ b ∈ xs, Handed P (f b)) :
    Handed (fun ys => ∀ a ∈ ys, P a) (xs.mapM f) := by
  induction xs with
  | nil =>
      rw [List.mapM_nil]
      exact fun _ ha => absurd ha List.not_mem_nil
  | cons b xs ih =>
      rw [List.mapM_cons]
      exact (hf b List.mem_cons_self).cons (ih fun b' hb' => hf b' (List.mem_cons_of_mem _ hb'))

end Handed

/-! ## Cells -/

theorem Column.fits_one : Column.Fits 1 := by simp [Column.Fits, ColumnKind.greatestInteger]

theorem Cell.ofBool_fits (b : Bool) : (Cell.ofBool b).Fits := by
  cases b <;> simp [Cell.ofBool, Cell.Fits, Column.Fits, ColumnKind.greatestInteger]

theorem Cell.ofDouble_fits (x : Binary64) : (Cell.ofDouble x).Fits := by
  cases x <;> trivial

namespace ColumnKind

variable {k : ColumnKind} {v : Value} {cell : Cell} {e : Failure}

theorem bindPlain_handed (hv : v.Fits) : Handed Cell.Fits (bindPlain v) := by
  unfold bindPlain
  split
  case h_2 b => exact Cell.ofBool_fits b
  case h_3 n =>
    rw [if_neg (not_or.mpr ⟨not_lt.mpr hv.1, not_lt.mpr hv.2⟩)]
    exact hv
  case h_4 x => exact Cell.ofDouble_fits x
  all_goals trivial

theorem bindReal_handed : Handed Cell.Fits (bindReal v) := by
  unfold bindReal
  split
  case h_3 => split <;> trivial
  case h_4 x => exact Cell.ofDouble_fits x
  case h_5 => exact Cell.ofDouble_fits _
  case h_6 =>
    split
    · exact Cell.ofDouble_fits _
    · trivial
  all_goals trivial

theorem bindBoolean_handed : Handed Cell.Fits (bindBoolean v) := by
  unfold bindBoolean
  split
  · trivial
  · split
    · exact Cell.ofBool_fits true
    · split
      · exact Cell.ofBool_fits false
      · trivial

theorem bindDate_handed : Handed Cell.Fits (bindDate v) := by
  unfold bindDate
  split <;> trivial

theorem bindMoment_handed : Handed Cell.Fits (bindMoment v) := by
  unfold bindMoment
  split <;> trivial

theorem bind_handed (hv : v.Fits) : Handed Cell.Fits (k.bind v) := by
  cases k with
  | real | decimal => exact bindReal_handed
  | boolean => exact bindBoolean_handed
  | date => exact bindDate_handed
  | datetime => exact bindMoment_handed
  | _ => exact bindPlain_handed hv

theorem keep_fits (h : cell.Fits) : (k.keep cell).Fits := by
  unfold keep
  split
  case h_3 x =>
    split
    · split
      · trivial
      next hn =>
        simp only [not_or, not_lt] at hn
        exact hn
    · trivial
  case h_4 => exact h
  all_goals trivial

theorem kept_handed {kind : ColumnKind} (hv : v.Fits) : Handed Cell.Fits ((kind.bind v).map k.keep) := by
  have h := bind_handed (k := kind) hv
  cases hb : kind.bind v with
  | ok cell => rw [hb] at h; exact keep_fits h
  | error e => rw [hb] at h; exact h

theorem read_fits (h : cell.Fits) : (k.read cell).Fits := by
  unfold read
  split
  case h_4 s =>
    cases Date.read? s.toList <;> trivial
  case h_5 s =>
    cases DateTime.read? s.toList <;> trivial
  case h_6 => exact h
  all_goals trivial

end ColumnKind

theorem Column.Takes.handed {column : Column} {v : Value} (h : column.Takes v) : Handed Value.Fits (column.coerce v) := by
  unfold Column.Takes Column.coerce at h
  unfold Column.coerce
  cases hv : column.kind.coerce? v with
  | some w => rw [hv] at h; exact h w rfl
  | none => trivial

/-! ## Rows -/

variable {db : Database} {m : Model} {row : Row} {column : String} {cell : Cell}

theorem Row.Fits.get (h : row.Fits) (column : String) : (row.get column).Fits := by
  unfold Row.get
  cases hl : row.lookup column with
  | none => trivial
  | some cell =>
      obtain ⟨before, after, he, _⟩ := List.lookup_eq_some_iff.mp hl
      exact h (column, cell) (by rw [he]; simp)

theorem Row.Fits.set (h : row.Fits) (hc : cell.Fits) : (row.set column cell).Fits := by
  intro kv hkv
  obtain ⟨old, hold, rfl⟩ := List.mem_map.mp hkv
  dsimp only
  split
  · exact hc
  · exact h old hold

theorem Row.Fits.key (h : row.Fits) : ∀ cell ∈ row.key m, cell.Fits := by
  intro cell hcell
  obtain ⟨k, _, rfl⟩ := List.mem_map.mp hcell
  exact h.get k

namespace Database

theorem lookup_setEntry {α : Type} {name other : String} {value : α} {entries : List (String × α)} :
    (setEntry name value entries).lookup other = if other == name then some value else entries.lookup other := by
  induction entries with
  | nil =>
      rw [setEntry, List.lookup_cons, List.lookup_nil]
      cases other == name <;> rfl
  | cons entry rest ih =>
      obtain ⟨n, v⟩ := entry
      rw [setEntry]
      by_cases hn : n = name
      · subst hn
        rw [if_pos (beq_self_eq_true n), List.lookup_cons, List.lookup_cons]
        cases other == n <;> rfl
      · rw [if_neg (by simpa using hn), List.lookup_cons, List.lookup_cons, ih]
        by_cases ho : other = n
        · subst ho; simp [hn]
        · rw [beq_eq_false_iff_ne.mpr ho]

theorem Fits.setRows {rows : List Row} {name : String} (h : db.Fits) (hr : ∀ row ∈ rows, Row.Fits row) :
    (db.setRows name rows).Fits := by
  intro other row hrow
  have hlookup : (db.setRows name rows).rowsOf other = if other == name then rows else db.rowsOf other := by
    rw [rowsOf, Database.setRows, lookup_setEntry]
    split <;> rfl
  rw [hlookup] at hrow
  split at hrow
  · exact hr row hrow
  · exact h other row hrow

theorem Fits.row? (h : db.Fits) {key : List Cell} (hr : db.row? m key = some row) : row.Fits :=
  h m.name row (List.mem_of_find?_eq_some hr)

theorem nextNumber_fits {rows : List Row} (h : ∀ row ∈ rows, Row.Fits row) :
    Column.Fits (nextNumber m rows) := by
  unfold nextNumber
  dsimp only
  split
  · exact Column.fits_one
  next n hmax =>
    obtain ⟨row, hrow, hn⟩ := List.mem_filterMap.mp (List.max?_mem hmax)
    split
    next hlt =>
      have hfits : ∀ cell ∈ row.key m, cell.Fits := (h row hrow).key
      split at hn
      next k hkey =>
        cases hn
        have hcell : Cell.Fits (.integer n) := hfits _ (by rw [hkey]; exact List.mem_cons_self)
        exact ⟨by have := hcell.1; omega, by omega⟩
      next => cases hn
    next =>
      -- among the numbers that are tried none is below one or beyond the greatest
      cases hfound : List.find? _ _ with
      | none => exact Column.fits_one
      | some k =>
          obtain ⟨i, _, rfl⟩ := List.mem_map.mp (List.mem_of_find?_eq_some hfound)
          have htest := List.find?_some hfound
          simp only [Bool.and_eq_true, decide_eq_true_eq] at htest
          refine ⟨?_, htest.1⟩
          simp only [ColumnKind.greatestInteger, Int.ofNat_eq_natCast, Option.getD_some]
          omega

theorem numbered_fits {rows : List Row} (h : ∀ row ∈ rows, Row.Fits row) (hr : row.Fits) :
    (numbered m rows row).Fits := by
  unfold numbered
  split
  next =>
    clear * - h hr
    generalize m.keys = keys
    induction keys generalizing row with
    | nil => exact hr
    | cons k keys ih =>
        have hnumber : Cell.Fits (.integer (nextNumber m rows)) := nextNumber_fits h
        exact ih (hr.set hnumber)
  · exact hr

theorem insert_handed (h : db.Fits) (hr : row.Fits) :
    Handed (fun out => Database.Fits out.2) (db.insert m row) := by
  unfold Database.insert
  dsimp only
  split
  · trivial
  · refine h.setRows fun r hin => ?_
    rcases List.mem_append.mp hin with hin | hin
    · exact h _ r hin
    · exact List.mem_singleton.mp hin ▸ numbered_fits (h _) hr

theorem replace_handed {key : List Cell} (h : db.Fits) (hr : row.Fits) :
    Handed Database.Fits (db.replace m key row) := by
  unfold Database.replace
  dsimp only
  split
  · trivial
  · refine h.setRows fun r hin => ?_
    obtain ⟨old, hold, rfl⟩ := List.mem_map.mp hin
    split
    · exact hr
    · exact h _ old hold

end Database

end RecordGraph
