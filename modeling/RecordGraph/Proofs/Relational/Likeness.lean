import Mathlib.Data.List.Forall2
import Mathlib.Data.Set.Insert
import RecordGraph.Proofs.Relational.Keys

/-!
# Databases that are alike

A veil covers columns of models. Databases are alike under it if their rows and join tables agree but for
what the veiled columns hold. A condition that reads no veiled column then has the same outcome in both, and
rows come in the same order.
-/

namespace RecordGraph

/-! ## Lists that correspond -/

section Lists

variable {α β : Type} {R : α → β → Prop} {xs : List α} {ys : List β}

/-- Sorting keeps what corresponds together if both orders compare alike. -/
theorem forall₂_mergeSort {le : α → α → Bool} {le' : β → β → Bool}
    (hle : ∀ {a a' b b'}, R a b → R a' b' → le a a' = le' b b') (h : List.Forall₂ R xs ys) :
    List.Forall₂ R (xs.mergeSort le) (ys.mergeSort le') := by
  -- both are sorted as the list of the pairs is
  obtain ⟨pairs, rfl, rfl⟩ : ∃ pairs : List { p : α × β // R p.1 p.2 },
      xs = pairs.map (·.1.1) ∧ ys = pairs.map (·.1.2) := by
    induction h with
    | nil => exact ⟨[], rfl, rfl⟩
    | cons hab _ ih =>
        obtain ⟨pairs, rfl, rfl⟩ := ih
        exact ⟨⟨(_, _), hab⟩ :: pairs, rfl, rfl⟩
  have hleft := List.map_mergeSort (r := fun p q : { p : α × β // R p.1 p.2 } => le p.1.1 q.1.1) (s := le)
    (f := (·.1.1)) (l := pairs) fun _ _ _ _ => rfl
  have hright := List.map_mergeSort (r := fun p q : { p : α × β // R p.1 p.2 } => le p.1.1 q.1.1) (s := le')
    (f := (·.1.2)) (l := pairs) fun p _ q _ => hle p.2 q.2
  rw [← hleft, ← hright, List.forall₂_map_left_iff, List.forall₂_map_right_iff, List.forall₂_same]
  exact fun p _ => p.2

theorem forall₂_filter_mem {p : α → Bool} {q : β → Bool} (hpq : ∀ a ∈ xs, ∀ b ∈ ys, R a b → p a = q b)
    (h : List.Forall₂ R xs ys) : List.Forall₂ R (xs.filter p) (ys.filter q) := by
  induction h with
  | nil => exact .nil
  | @cons a b as bs hab _ ih =>
      have hrest := ih fun a ha b hb => hpq a (List.mem_cons_of_mem _ ha) b (List.mem_cons_of_mem _ hb)
      rw [List.filter_cons, List.filter_cons, ← hpq a List.mem_cons_self b List.mem_cons_self hab]
      split
      · exact .cons hab hrest
      · exact hrest

theorem forall₂_filter {p : α → Bool} {q : β → Bool} (hpq : ∀ {a b}, R a b → p a = q b)
    (h : List.Forall₂ R xs ys) : List.Forall₂ R (xs.filter p) (ys.filter q) :=
  forall₂_filter_mem (fun _ _ _ _ hab => hpq hab) h

/-- So does leaving out what came before, if items are equal exactly where what corresponds to them is. -/
theorem forall₂_eraseDups [BEq α] [LawfulBEq α] [BEq β] [LawfulBEq β]
    (heq : ∀ a ∈ xs, ∀ a' ∈ xs, ∀ b ∈ ys, ∀ b' ∈ ys, R a b → R a' b' → (a = a' ↔ b = b'))
    (h : List.Forall₂ R xs ys) : List.Forall₂ R xs.eraseDups ys.eraseDups := by
  induction hn : xs.length using Nat.strong_induction_on generalizing xs ys with
  | _ n ih =>
      cases h with
      | nil => simp
      | @cons a b as bs hab hrest =>
          rw [List.eraseDups_cons, List.eraseDups_cons]
          have hkept : List.Forall₂ R (as.filter fun a' => !a' == a) (bs.filter fun b' => !b' == b) := by
            refine forall₂_filter_mem (fun a' ha' b' hb' hab' => ?_) hrest
            rw [Bool.not_inj_iff, Bool.eq_iff_iff, beq_iff_eq, beq_iff_eq]
            exact heq a' (List.mem_cons_of_mem _ ha') a List.mem_cons_self b' (List.mem_cons_of_mem _ hb') b
              List.mem_cons_self hab' hab
          have hless : (as.filter fun a' => !a' == a).length < n := by
            have hle := List.length_filter_le (fun a' => !a' == a) as
            simp only [List.length_cons] at hn
            omega
          refine .cons hab (ih _ hless (fun x hx x' hx' y hy y' hy' => ?_) hkept rfl)
          exact heq x (List.mem_cons_of_mem _ (List.mem_of_mem_filter hx)) x'
            (List.mem_cons_of_mem _ (List.mem_of_mem_filter hx')) y
            (List.mem_cons_of_mem _ (List.mem_of_mem_filter hy)) y'
            (List.mem_cons_of_mem _ (List.mem_of_mem_filter hy'))

/-- What stands under a key corresponds if all entries do, key by key. -/
theorem lookup_forall₂ {κ : Type} [BEq κ] [LawfulBEq κ] {P : κ → α → β → Prop} {xs : List (κ × α)}
    {ys : List (κ × β)} (h : List.Forall₂ (fun x y => x.1 = y.1 ∧ P x.1 x.2 y.2) xs ys) (key : κ) :
    Option.Rel (P key) (xs.lookup key) (ys.lookup key) := by
  induction h with
  | nil => exact .none
  | @cons x y _ _ hfirst _ ih =>
      obtain ⟨k, a⟩ := x
      obtain ⟨k', b⟩ := y
      obtain ⟨rfl, hab⟩ := hfirst
      rw [List.lookup_cons, List.lookup_cons]
      cases hk : key == k with
      | true => exact .some (eq_of_beq hk ▸ hab)
      | false => exact ih

end Lists

/-! ## Rows -/

/-- Columns that are covered, each with the name of its model. -/
abbrev Veil := Set (String × String)

/-- Rows of a model that differ in veiled columns only. -/
def Row.Alike (veil : Veil) (model : String) (row other : Row) : Prop :=
  ∀ column, (model, column) ∉ veil → row.get column = other.get column

structure Database.Alike (veil : Veil) (db other : Database) : Prop where
  rows : ∀ model, List.Forall₂ (Row.Alike veil model) (db.rowsOf model) (other.rowsOf model)
  pairs : ∀ table, db.pairsOf table = other.pairsOf table

/-- The columns by which the rows of a link are found, with their models. -/
def Link.heldIn (l : Link) (source : String) : List (String × String) :=
  match l.kind with
  | .holds column => [(source, column), (l.target, l.keyColumn)]
  | .heldBy column _ => [(l.target, column), (source, l.keyColumn)]
  | .through _ => [(source, l.keyColumn), (l.target, l.keyColumn)]

variable {veil : Veil} {db db' : Database} {m : Model} {l : Link} {row row' other other' : Row}

theorem Row.alike_of_cells {model : String}
    (h : List.Forall₂ (fun x y => x.1 = y.1 ∧ ((model, x.1) ∉ veil → x.2 = y.2)) row row') :
    Row.Alike veil model row row' := by
  intro column hc
  have hcell := lookup_forall₂ (P := fun name cell cell' => (model, name) ∉ veil → cell = cell') h column
  unfold get
  generalize row.lookup column = found, row'.lookup column = found' at hcell
  cases hcell with
  | none => rfl
  | some he => exact he hc

theorem Database.alike_of_tables
    (ht : List.Forall₂ (fun t t' => t.1 = t'.1 ∧ List.Forall₂ (Row.Alike veil t.1) t.2 t'.2) db.tables db'.tables)
    (hj : db.joins = db'.joins) : db.Alike veil db' := by
  refine ⟨fun model => ?_, fun table => by rw [pairsOf, pairsOf, hj]⟩
  have hrows := lookup_forall₂ (P := fun model => List.Forall₂ (Row.Alike veil model)) ht model
  unfold rowsOf
  generalize db.tables.lookup model = found, db'.tables.lookup model = found' at hrows
  cases hrows with
  | none => exact .nil
  | some h => exact h

theorem Row.Alike.key (h : Row.Alike veil m.name row row') (hm : ∀ k ∈ m.keys, (m.name, k) ∉ veil) :
    row.key m = row'.key m :=
  List.map_congr_left fun k hk => h k (hm k hk)

namespace Database.Alike

variable (hdb : db.Alike veil db')

include hdb

theorem linked {source : String} (hl : ∀ p ∈ l.heldIn source, p ∉ veil) (hr : Row.Alike veil source row row')
    (ho : Row.Alike veil l.target other other') : db.linked l row other = db'.linked l row' other' := by
  unfold Link.heldIn at hl
  unfold Database.linked
  cases hk : l.kind with
  | holds column =>
      simp only [hk, List.forall_mem_cons] at hl ⊢
      rw [hr column hl.1, ho l.keyColumn hl.2.1]
  | heldBy column many =>
      simp only [hk, List.forall_mem_cons] at hl ⊢
      rw [ho column hl.1, hr l.keyColumn hl.2.1]
  | through table =>
      simp only [hk, List.forall_mem_cons] at hl ⊢
      rw [hr l.keyColumn hl.1, ho l.keyColumn hl.2.1, hdb.pairs]

theorem linkedRows {source : String} (hl : ∀ p ∈ l.heldIn source, p ∉ veil)
    (hr : Row.Alike veil source row row') :
    List.Forall₂ (Row.Alike veil l.target) (db.linkedRows l row) (db'.linkedRows l row') :=
  forall₂_filter (fun ho => hdb.linked hl hr ho) (hdb.rows l.target)

theorem sorted (hm : ∀ k ∈ m.keys, (m.name, k) ∉ veil) :
    List.Forall₂ (Row.Alike veil m.name) (db.rows m) (db'.rows m) :=
  forall₂_mergeSort (fun hr ho => by rw [hr.key hm, ho.key hm]) (hdb.rows m.name)

end Database.Alike

/-- Rows of which no two have one key. -/
def Model.TellsApart (m : Model) (rows : List Row) : Prop :=
  ∀ row ∈ rows, ∀ other ∈ rows, row.key m = other.key m → row = other

theorem Model.TellsApart.subset {rows part : List Row} (h : m.TellsApart rows) (hsub : ∀ row ∈ part, row ∈ rows) :
    m.TellsApart part :=
  fun row hrow other hother => h row (hsub row hrow) other (hsub other hother)

theorem Database.Keyed.tellsApart {rows : List Row} (h : db.Keyed m) (hsub : ∀ row ∈ rows, row ∈ db.rows m) :
    m.TellsApart rows := by
  intro row hrow other hother hkey
  refine h.unique (hsub row hrow) (hsub other hother) fun k hk => ?_
  rw [← List.map_inj_left.mp hkey k hk]
  exact Cell.same_self (h.filled row (Database.mem_rows.mp (hsub row hrow)) k hk)

/-- Rows that come several times are the same in both lists, if they are told apart by their keys. -/
theorem eraseDups_alike {rows rows' : List Row} (hm : ∀ k ∈ m.keys, (m.name, k) ∉ veil)
    (h : List.Forall₂ (Row.Alike veil m.name) rows rows') (ht : m.TellsApart rows) (ht' : m.TellsApart rows') :
    List.Forall₂ (Row.Alike veil m.name) rows.eraseDups rows'.eraseDups := by
  refine forall₂_eraseDups (fun row hrow other hother row' hrow' other' hother' hr ho => ⟨fun he => ?_, fun he => ?_⟩) h
  · exact ht' row' hrow' other' hother' (by rw [← hr.key hm, ← ho.key hm, he])
  · exact ht row hrow other hother (by rw [hr.key hm, ho.key hm, he])

/-! ## Conditions -/

namespace Condition

/-- A condition on rows of a model has one outcome for rows that are alike. -/
def Agrees (veil : Veil) (db db' : Database) (model : String) (cond : Condition) : Prop :=
  ∀ row row', Row.Alike veil model row row' → cond.eval db row = cond.eval db' row'

variable {model column : String} {cond : Condition} {conds : List Condition}

theorem agrees_all (h : ∀ cond ∈ conds, cond.Agrees veil db db' model) :
    (all conds).Agrees veil db db' model := by
  intro row row' hr
  simp only [eval]
  induction conds with
  | nil => rfl
  | cons first rest ih =>
      simp only [evalAll]
      rw [h first List.mem_cons_self row row' hr, ih fun cond hc => h cond (List.mem_cons_of_mem _ hc)]

theorem agrees_any (h : ∀ cond ∈ conds, cond.Agrees veil db db' model) :
    (any conds).Agrees veil db db' model := by
  intro row row' hr
  simp only [eval]
  induction conds with
  | nil => rfl
  | cons first rest ih =>
      simp only [evalAny]
      rw [h first List.mem_cons_self row row' hr, ih fun cond hc => h cond (List.mem_cons_of_mem _ hc)]

theorem agrees_always : always.Agrees veil db db' model := agrees_all (by simp)

theorem Agrees.negation (h : cond.Agrees veil db db' model) : cond.negation.Agrees veil db db' model :=
  fun row row' hr => congrArg Truth.not (h row row' hr)

theorem agrees_linked (hdb : db.Alike veil db') (hl : ∀ p ∈ l.heldIn model, p ∉ veil)
    (h : cond.Agrees veil db db' l.target) : (linked l cond).Agrees veil db db' model := by
  intro row row' hr
  have hholds : List.Forall₂ (fun other other' => (cond.eval db other == .holds) = (cond.eval db' other' == .holds))
      (db.linkedRows l row) (db'.linkedRows l row') :=
    (hdb.linkedRows hl hr).imp fun other other' ho => by rw [h other other' ho]
  simp only [eval]
  refine congrArg Truth.ofBool ?_
  generalize db.linkedRows l row = rows, db'.linkedRows l row' = rows' at hholds
  induction hholds with
  | nil => rfl
  | cons hfirst _ ih => rw [List.any_cons, List.any_cons, hfirst, ih]

/-! ## Conditions on a column -/

theorem agrees_isNull (hc : (model, column) ∉ veil) : (isNull column).Agrees veil db db' model :=
  fun row row' hr => by simp only [eval, hr column hc]

theorem agrees_compare (hc : (model, column) ∉ veil) {comparison : Comparison} {operand : Except Failure Cell} :
    (compare comparison column operand).Agrees veil db db' model :=
  fun row row' hr => by simp only [eval, hr column hc]

theorem agrees_among (hc : (model, column) ∉ veil) {operands : List (Except Failure Cell)} :
    (among column operands).Agrees veil db db' model :=
  fun row row' hr => by simp only [eval, hr column hc]

theorem agrees_finds (hc : (model, column) ∉ veil) {place : TextMatch} {part : String} :
    (finds place column part).Agrees veil db db' model :=
  fun row row' hr => by simp only [eval, hr column hc]

end Condition

end RecordGraph
