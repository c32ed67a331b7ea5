import RecordGraph.Proofs.Relational.Uniqueness

/-!
# Rows that are touched

A change of a table touches some of its rows if all others stand where they stood, and no other table was changed.
A row that takes the place of one that may be touched may be touched again, by its new key.
-/

namespace RecordGraph

/-- What is known of the items at each place of two lists can be put together. -/
theorem forall₂_both {α β : Type} {R S T : α → β → Prop} {xs : List α} {ys : List β} (hr : List.Forall₂ R xs ys)
    (hs : List.Forall₂ S xs ys) (h : ∀ a ∈ xs, ∀ b ∈ ys, R a b → S a b → T a b) : List.Forall₂ T xs ys := by
  rw [List.forall₂_iff_zip] at hr hs ⊢
  refine ⟨hr.1, fun hin => ?_⟩
  obtain ⟨ha, hb⟩ := List.of_mem_zip hin
  exact h _ ha _ hb (hr.2 hin) (hs.2 hin)

/-! ## Conditions and what they look at -/

namespace Condition

variable {db db' : Database}

mutual

/-- The links that a condition goes along. -/
def links : Condition → List Link
  | .isNull _ | .compare .. | .among .. | .finds .. => []
  | .all conds | .any conds => linksOf conds
  | .negation cond => links cond
  | .linked l cond => l :: links cond

def linksOf : List Condition → List Link
  | [] => []
  | cond :: conds => links cond ++ linksOf conds

end

mutual

/-- The outcome of a condition depends on the row and on the rows along its links. -/
theorem eval_congr : ∀ (cond : Condition), (∀ l ∈ cond.links, ∀ row, db.linkedRows l row = db'.linkedRows l row) →
    ∀ row, cond.eval db row = cond.eval db' row
  | .isNull _, _, _ | .compare .., _, _ | .among .., _, _ | .finds .., _, _ => by simp only [eval]
  | .all conds, h, row => by rw [eval, eval, evalAll_congr conds h row]
  | .any conds, h, row => by rw [eval, eval, evalAny_congr conds h row]
  | .negation cond, h, row => by rw [eval, eval, eval_congr cond h row]
  | .linked l cond, h, row => by
      rw [links] at h
      rw [eval, eval, h l List.mem_cons_self]
      congr 2; funext other
      rw [eval_congr cond (fun l hl => h l (List.mem_cons_of_mem _ hl)) other]

theorem evalAll_congr : ∀ (conds : List Condition),
    (∀ l ∈ linksOf conds, ∀ row, db.linkedRows l row = db'.linkedRows l row) →
      ∀ row, evalAll db row conds = evalAll db' row conds
  | [], _, _ => by simp only [evalAll]
  | cond :: conds, h, row => by
      rw [linksOf] at h
      rw [evalAll, evalAll, eval_congr cond (fun l hl => h l (List.mem_append_left _ hl)) row,
        evalAll_congr conds (fun l hl => h l (List.mem_append_right _ hl)) row]

theorem evalAny_congr : ∀ (conds : List Condition),
    (∀ l ∈ linksOf conds, ∀ row, db.linkedRows l row = db'.linkedRows l row) →
      ∀ row, evalAny db row conds = evalAny db' row conds
  | [], _, _ => by simp only [evalAny]
  | cond :: conds, h, row => by
      rw [linksOf] at h
      rw [evalAny, evalAny, eval_congr cond (fun l hl => h l (List.mem_append_left _ hl)) row,
        evalAny_congr conds (fun l hl => h l (List.mem_append_right _ hl)) row]

end

end Condition

namespace Database

variable {P : Row → Prop} {m : Model} {name : String} {db₀ db db' : Database} {key : List Cell} {r row : Row}

/-! ## Rows in the place of others -/

/-- A row that can stand beside others has a key, and none of them has it. -/
theorem violation?_none {others : List Row} (h : violation? m others r = none) :
    (∀ k ∈ m.keys, (r.get k).isNull = false) ∧
      ∀ other ∈ others, ¬ ∀ k ∈ m.keys, (r.get k).same (other.get k) = true := by
  unfold violation? at h
  dsimp only at h
  split at h
  · cases h
  · split at h
    · cases h
    · rename_i hfilled
      rw [Option.map_eq_none_iff, List.find?_eq_none] at h
      refine ⟨fun k hk => ?_, fun other hother hsame => ?_⟩
      · obtain ⟨column, hcolumn, rfl⟩ := List.mem_map.mp hk
        obtain ⟨hin, hkey⟩ := List.mem_filter.mp hcolumn
        simpa [hkey] using List.find?_eq_none.mp hfilled column hin
      · have hany := h m.keys List.mem_cons_self
        replace hany : ¬ others.any (fun s => m.keys.all fun k => (r.get k).same (s.get k)) = true := hany
        exact hany (List.any_eq_true.mpr ⟨other, hother, List.all_eq_true.mpr hsame⟩)

theorem replace_ok (h : db.replace m key r = .ok db') :
    violation? m ((db.rowsOf m.name).filter fun s => s.key m != key) r = none ∧
      db' = db.setRows m.name ((db.rowsOf m.name).map fun s => if s.key m == key then r else s) := by
  unfold replace at h
  dsimp only at h
  split at h
  · cases h
  · rename_i hnone
    exact ⟨hnone, (pure_ok_iff.mp h).symm⟩

theorem rowsOf_setRows_of_ne {rows : List Row} {other : String} (h : other ≠ name) :
    (db.setRows name rows).rowsOf other = db.rowsOf other := by
  rw [rowsOf, setRows, lookup_setEntry, if_neg (by simpa using h)]
  rfl

/-- A row of another key is told from one that can take the place of a key. -/
theorem replace_apart (h : db.replace m key r = .ok db') (hrow : row ∈ db.rowsOf m.name) (hne : row.key m ≠ key) :
    ¬ ∀ k ∈ m.keys, (r.get k).same (row.get k) = true :=
  (violation?_none (replace_ok h).1).2 row (List.mem_filter.mpr ⟨hrow, by simpa using hne⟩)

theorem same_of_key_eq (hfilled : ∀ k ∈ m.keys, (r.get k).isNull = false) (h : r.key m = row.key m) :
    ∀ k ∈ m.keys, (r.get k).same (row.get k) = true := by
  intro k hk
  rw [← List.map_inj_left.mp h k hk]
  exact Cell.same_self (hfilled k hk)

theorem Keyed.replace (h : db.Keyed m) (hr : db.replace m key r = .ok db') : db'.Keyed m := by
  obtain ⟨hnone, rfl⟩ := replace_ok hr
  have hown := (violation?_none hnone).1
  refine ⟨fun row hrow => ?_, ?_⟩
  · rw [rowsOf_setRows] at hrow
    obtain ⟨old, hold, rfl⟩ := List.mem_map.mp hrow
    split
    · exact hown
    · exact h.filled old hold
  · rw [rowsOf_setRows, List.pairwise_map]
    refine h.distinct.imp_of_mem fun {row other} hrow hother hne => ?_
    by_cases hk : row.key m = key <;> by_cases hk' : other.key m = key <;>
      simp only [hk, hk', beq_self_eq_true, if_true, beq_iff_eq, if_false]
    · exact absurd (same_of_key_eq (h.filled row hrow) (hk.trans hk'.symm)) hne
    · exact replace_apart hr hother hk'
    · exact fun hsame => replace_apart hr hrow hk fun k hin => Cell.same_symm (hsame k hin)
    · exact hne

/-! ## Changes of some rows -/

/-- Only rows of one table were changed, of those that are allowed. -/
structure ChangesOnly (P : Row → Prop) (name : String) (db db' : Database) : Prop where
  rows : List.Forall₂ (fun old new => new = old ∨ P old) (db.rowsOf name) (db'.rowsOf name)
  others : ∀ other, other ≠ name → db'.rowsOf other = db.rowsOf other
  pairs : ∀ table, db'.pairsOf table = db.pairsOf table

/-- The rows that have a key now are ones that are allowed to be changed. -/
def Touchable (P : Row → Prop) (m : Model) (db db' : Database) (key : List Cell) : Prop :=
  List.Forall₂ (fun old new => new.key m = key → P old) (db.rowsOf m.name) (db'.rowsOf m.name)

theorem ChangesOnly.refl : db.ChangesOnly P name db where
  rows := List.forall₂_same.mpr fun _ _ => .inl rfl
  others _ _ := rfl
  pairs _ := rfl

theorem ChangesOnly.replace (h : db₀.ChangesOnly P m.name db) (ht : db₀.Touchable P m db key)
    (hr : db.replace m key r = .ok db') : db₀.ChangesOnly P m.name db' := by
  obtain ⟨_, rfl⟩ := replace_ok hr
  refine ⟨?_, fun other hne => (rowsOf_setRows_of_ne hne).trans (h.others other hne), h.pairs⟩
  rw [rowsOf_setRows, List.forall₂_map_right_iff]
  refine forall₂_both h.rows ht fun old _ new _ hchanged htouched => ?_
  split
  · rename_i hkey
    exact .inr (htouched (beq_iff_eq.mp hkey))
  · exact hchanged

theorem Touchable.replace (ht : db₀.Touchable P m db key) (hr : db.replace m key r = .ok db') :
    db₀.Touchable P m db' (r.key m) := by
  obtain ⟨hnone, rfl⟩ := replace_ok hr
  rw [Touchable, rowsOf_setRows, List.forall₂_map_right_iff]
  -- the row that was put in has the key itself, and a row that was left could have it only against the constraint
  refine forall₂_both ht ht fun old _ new hnew htouched _ => ?_
  split
  · rename_i hkey
    exact fun _ => htouched (beq_iff_eq.mp hkey)
  · rename_i hkey
    intro hsame
    exact absurd (same_of_key_eq (violation?_none hnone).1 hsame.symm) (replace_apart hr hnew (by simpa using hkey))

/-- The key of a row is that of no other, so it may be touched if the row was changed or is allowed to be. -/
theorem ChangesOnly.touchable (h : db₀.ChangesOnly P m.name db) (hk : db.Keyed m) (hrow : row ∈ db.rows m)
    (hP : row ∈ db₀.rowsOf m.name → P row) : db₀.Touchable P m db (row.key m) := by
  refine forall₂_both h.rows h.rows fun old hold new hnew hchanged _ hkey => ?_
  have hin : new ∈ db.rows m := mem_rows.mpr hnew
  obtain rfl := hk.unique hin hrow (same_of_key_eq (hk.filled new hnew) hkey)
  rcases hchanged with rfl | hallowed
  · exact hP hold
  · exact hallowed

/-- To put the pairs of a join table back changes nothing. -/
theorem ChangesOnly.setPairs (h : db₀.ChangesOnly P name db) {table : String} :
    db₀.ChangesOnly P name (db.setPairs table (db.pairsOf table)) := by
  refine ⟨h.rows, h.others, fun other => ?_⟩
  rw [← h.pairs other, pairsOf, Database.setPairs, lookup_setEntry]
  split
  · rename_i heq
    rw [beq_iff_eq.mp heq]
    rfl
  · rfl

/-- Along links to other tables the rows are the same. -/
theorem ChangesOnly.linkedRows (h : db.ChangesOnly P name db') {l : Link} (hrows : db'.rowsOf l.target = db.rowsOf l.target) :
    db'.linkedRows l row = db.linkedRows l row := by
  have htest : db'.linked l row = db.linked l row := by
    funext other
    unfold Database.linked
    simp only [h.pairs]
  rw [Database.linkedRows, Database.linkedRows, hrows, htest]

/-- A condition that does not go along links to the changed table holds of the rows of which it held. -/
theorem ChangesOnly.selects (h : db.ChangesOnly P name db') {cond : Condition}
    (hapart : ∀ l ∈ cond.links, l.target ≠ name) : cond.selects db' = cond.selects db := by
  funext row
  rw [Condition.selects, Condition.selects,
    Condition.eval_congr cond fun l hl row => h.linkedRows (h.others l.target (hapart l hl))]

/-- Where no row is allowed to be changed, conditions select the rows that they selected. -/
theorem ChangesOnly.select (h : db.ChangesOnly (fun _ => False) name db') (cond : Condition) :
    db'.select m cond = db.select m cond := by
  have hrows (other : String) : db'.rowsOf other = db.rowsOf other := by
    by_cases hne : other = name
    · subst hne
      have hsame := h.rows.imp fun old new hnew => (hnew.resolve_right id).symm
      rw [List.forall₂_eq_eq_eq] at hsame
      exact hsame.symm
    · exact h.others other hne
  have hselects : cond.selects db' = cond.selects db := by
    funext row
    rw [Condition.selects, Condition.selects, Condition.eval_congr cond fun l _ row => h.linkedRows (hrows l.target)]
  rw [Database.select, Database.select, Database.rows, Database.rows, hrows, hselects]

end Database

end RecordGraph
