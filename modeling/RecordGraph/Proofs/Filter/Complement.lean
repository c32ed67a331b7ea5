import RecordGraph.Proofs.Filter.Addressing
import RecordGraph.Proofs.Filter.Opposition
import RecordGraph.Proofs.Filter.Vocabulary
import RecordGraph.Proofs.Relational.Deciding

/-!
# Clauses and their denials

A clause and the clause that denies its operand are read as opposite conditions. No row is selected by both, and a
row that has a value in the field is selected by one of them, if the engine takes every operand and none of them
is null.
-/

namespace RecordGraph

/-! ## Conditions of opposed trees -/

namespace Column

open Condition (Opposite)

variable {column : Column} {op : String} {v : Value} {vs : List Value} {cond other : Condition}

theorem condition_single : column.condition (.object [(op, v)]) = .ok cond ↔
    ∃ part, column.operation op v = .ok part ∧ cond = .all [part] := by
  simp only [condition, map_ok_iff, operators_ok_iff, List.forall₂_cons_left_iff, List.forall₂_nil_left_iff]
  constructor
  · rintro ⟨_, ⟨part, _, hpart, rfl, rfl⟩, rfl⟩
    exact ⟨part, hpart, rfl⟩
  · rintro ⟨part, hpart, rfl⟩
    exact ⟨_, ⟨part, _, hpart, rfl, rfl⟩, rfl⟩

theorem unequalTo_opposite (h : column.equalTo v = .ok cond) (hother : column.unequalTo v = .ok other) :
    Opposite cond other := by
  cases v with
  | null =>
      cases h
      cases hother
      exact Condition.opposite_negation
  | _ =>
      obtain ⟨w, hw, h⟩ := bind_ok_iff.mp h
      obtain ⟨w', hw', hother⟩ := bind_ok_iff.mp hother
      cases hw.symm.trans hw'
      obtain rfl := pure_ok_iff.mp h
      obtain rfl := pure_ok_iff.mp hother
      exact equals_opposite

/-- What is denied of a column is the opposite of what is said of it. -/
theorem denied_opposite (h : column.condition v = .ok cond)
    (hother : column.condition (.object [("not", v)]) = .ok other) : Opposite cond other := by
  obtain ⟨part, hpart, rfl⟩ := condition_single.mp hother
  suffices hopposite : Opposite cond part by
    intro db row
    rw [Condition.eval_all_single, hopposite]
  cases hv : v.isObject with
  | false =>
      rw [condition_plain hv] at h
      rw [operation_plain hv] at hpart
      exact unequalTo_opposite h hpart
  | true =>
      cases v with
      | object members =>
          obtain ⟨conds, hconds, rfl⟩ := map_ok_iff.mp h
          rw [operation, if_pos rfl] at hpart
          obtain ⟨conds', hconds', rfl⟩ := map_ok_iff.mp hpart
          cases hconds.symm.trans hconds'
          exact Condition.opposite_negation
      | _ => cases hv

theorem notIn_opposite (h : column.condition (.object [("in", .list vs)]) = .ok cond)
    (hother : column.condition (.object [("notIn", .list vs)]) = .ok other) : Opposite cond other := by
  obtain ⟨part, hpart, rfl⟩ := condition_single.mp h
  obtain ⟨denied, hdenied, rfl⟩ := condition_single.mp hother
  obtain ⟨part', hpart', rfl⟩ := map_ok_iff.mp hdenied
  cases hpart.symm.trans hpart'
  exact Condition.opposite_negation.all_single

end Column

namespace Catalog

open RecordGraph.Filter
open Condition (About Opposite)

variable {c : Catalog} {m : Model} {key name : String} {column : Column} {v : Value} {vs : List Value}
  {cond other : Condition} {tree denied : Object}

theorem condition_single : c.condition m (.object [(key, v)]) = .ok cond ↔
    ∃ part, c.memberCondition m key v = .ok part ∧ cond = .all [part] := by
  simp only [condition, map_ok_iff, conditions_ok_iff, List.forall₂_cons_left_iff, List.forall₂_nil_left_iff]
  constructor
  · rintro ⟨_, ⟨part, _, hpart, rfl, rfl⟩, rfl⟩
    exact ⟨part, hpart, rfl⟩
  · rintro ⟨part, hpart, rfl⟩
    exact ⟨_, ⟨part, _, hpart, rfl, rfl⟩, rfl⟩

section Names

variable (hkey : name ∉ ["AND", "OR", "NOT"]) (hl : m.link? name = none) (hc : m.column? name = some column)

include hkey hl hc

theorem condition_column : c.condition m (.object [(name, v)]) = .ok cond ↔
    ∃ part, column.condition v = .ok part ∧ cond = .all [part] := by
  simp only [condition_single, memberCondition_name hkey, hl, Model.cellCondition, hc]

theorem condition_column_about (h : c.condition m (.object [(name, v)]) = .ok cond) : About name cond := by
  obtain ⟨part, hpart, rfl⟩ := (condition_column hkey hl hc).mp h
  have hname : column.name = name := by simpa using List.find?_some hc
  refine .all fun cond hin => ?_
  rw [List.mem_singleton.mp hin, ← hname]
  exact Column.condition_about hpart

/-- Texts that are looked for are denied one by one. -/
theorem alternatives_opposite (hne : vs ≠ []) (h : c.condition m (.object [("OR", .list (textAlternatives name vs))]) = .ok cond)
    (hother : c.condition m (.object [("NOT", .list (textAlternatives name vs))]) = .ok other) :
    About name cond ∧ Opposite cond other := by
  obtain ⟨part, hpart, rfl⟩ := condition_single.mp h
  obtain ⟨part', hpart', rfl⟩ := condition_single.mp hother
  obtain ⟨conds, hconds, rfl⟩ := map_ok_iff.mp hpart
  obtain ⟨conds', hconds', rfl⟩ := map_ok_iff.mp hpart'
  cases hconds.symm.trans hconds'
  have hparts := parts_ok_iff.mp hconds
  have hfilled : conds ≠ [] := by
    rintro rfl
    have hnone : textAlternatives name vs = [] := List.forall₂_nil_right_iff.mp hparts
    exact hne (List.map_eq_nil_iff.mp hnone)
  rw [if_neg (by simpa using hfilled)]
  constructor
  · refine .all fun cond hin => ?_
    rw [List.mem_singleton.mp hin]
    refine .any fun cond hin => ?_
    obtain ⟨item, hitem, hread⟩ := forall₂_partner hparts.flip hin
    obtain ⟨text, _, rfl⟩ := List.mem_map.mp hitem
    exact condition_column_about hkey hl hc hread
  · exact Condition.opposite_any.all_single

/-- A range is denied as a whole, its two ends together. -/
theorem range_opposite {low high : Value}
    (h : c.condition m (.object [(name, .object [("gte", low), ("lte", high)])]) = .ok cond)
    (hother : c.condition m (.object [("NOT", .list [.object [("AND", .list [.object [(name, .object [("gte", low)])],
      .object [(name, .object [("lte", high)])]])]])]) = .ok other) : Opposite cond other := by
  obtain ⟨part, hpart, rfl⟩ := (condition_column hkey hl hc).mp h
  obtain ⟨conds, hconds, rfl⟩ := map_ok_iff.mp hpart
  simp only [Column.operators_ok_iff, List.forall₂_cons_left_iff, List.forall₂_nil_left_iff] at hconds
  obtain ⟨atLeast, _, hlow, ⟨atMost, _, hhigh, rfl, rfl⟩, rfl⟩ := hconds
  obtain ⟨part', hpart', rfl⟩ := condition_single.mp hother
  obtain ⟨wholes, hwholes, rfl⟩ := map_ok_iff.mp hpart'
  have hwholes := parts_ok_iff.mp hwholes
  simp only [Value.asItems, List.forall₂_cons_left_iff, List.forall₂_nil_left_iff] at hwholes
  obtain ⟨whole, _, hwhole, rfl, rfl⟩ := hwholes
  obtain ⟨both, hboth, rfl⟩ := condition_single.mp hwhole
  obtain ⟨ends, hends, rfl⟩ := map_ok_iff.mp hboth
  have hends := parts_ok_iff.mp hends
  simp only [Value.asItems, List.forall₂_cons_left_iff, List.forall₂_nil_left_iff] at hends
  obtain ⟨first, _, hfirst, ⟨second, _, hsecond, rfl, rfl⟩, rfl⟩ := hends
  obtain ⟨_, hfirst', rfl⟩ := (condition_column hkey hl hc).mp hfirst
  obtain ⟨_, hsecond', rfl⟩ := (condition_column hkey hl hc).mp hsecond
  obtain ⟨_, hlow', rfl⟩ := Column.condition_single.mp hfirst'
  obtain ⟨_, hhigh', rfl⟩ := Column.condition_single.mp hsecond'
  cases hlow.symm.trans hlow'
  cases hhigh.symm.trans hhigh'
  intro db row
  simp [Condition.eval, Condition.evalAll]

/-- The trees that a clause and its denial leave are opposite conditions on the column of the clause. -/
theorem opposed_opposite (h : Opposed name tree denied) (hcond : c.condition m (.object tree) = .ok cond)
    (hother : c.condition m (.object denied) = .ok other) : About name cond ∧ Opposite cond other := by
  cases h with
  | compared v =>
      refine ⟨condition_column_about hkey hl hc hcond, ?_⟩
      obtain ⟨part, hpart, rfl⟩ := (condition_column hkey hl hc).mp hcond
      obtain ⟨part', hpart', rfl⟩ := (condition_column hkey hl hc).mp hother
      exact (Column.denied_opposite hpart hpart').all_single
  | listed vs =>
      refine ⟨condition_column_about hkey hl hc hcond, ?_⟩
      obtain ⟨part, hpart, rfl⟩ := (condition_column hkey hl hc).mp hcond
      obtain ⟨part', hpart', rfl⟩ := (condition_column hkey hl hc).mp hother
      exact (Column.notIn_opposite hpart hpart').all_single
  | alternatives hne => exact alternatives_opposite hkey hl hc hne hcond hother
  | range low high => exact ⟨condition_column_about hkey hl hc hcond, range_opposite hkey hl hc hcond hother⟩

end Names

end Catalog

namespace Filter

/-! ## Texts of a clause and its denial -/

/-- An operand of a clause that asks for a value and does not deny already. -/
structure Deniable (operand : List Char) : Prop where
  filled : operand ≠ []
  trimmed : trim operand = operand
  present : operand ≠ nullWord
  asserted : Operand.after? "not:" operand = none
  single : Single operand

def clauseText (name : String) (operand : List Char) : List Char := name.toList ++ '=' :: operand

def denialText (name : String) (operand : List Char) : List Char := clauseText name ("not:".toList ++ operand)

variable {s : Schema} {e : Entity} {field : Field} {entity name : String} {operand : List Char}

theorem parse_clauseText (he : s.entity entity = .ok e) (hf : e.field? name = some field) (hname : Addressable name)
    (ho : Deniable operand) : parse s entity (clauseText name operand) = applyOperand name operand [] := by
  rw [clauseText, parse_clause he hf hname ho.single.whole ho.trimmed]
  simp only [applyClause, he, bind, Except.bind, hf, if_neg ho.present, ho.asserted]
  exact if_neg (by simpa using ho.filled)

theorem parse_denialText (he : s.entity entity = .ok e) (hf : e.field? name = some field) (hname : Addressable name)
    (ho : Deniable operand) : parse s entity (denialText name operand) = applyNegated field operand [] := by
  have hwhole : splitClauses ("not:".toList ++ operand) = ["not:".toList ++ operand] :=
    splitClauses_append_left (by decide) ho.single.whole
  have htrim : trim ("not:".toList ++ operand) = "not:".toList ++ operand :=
    trim_append ho.trimmed ho.filled (by decide)
  have hpresent : "not:".toList ++ operand ≠ nullWord := by
    intro h
    cases h
  have hdenied : Operand.after? "not:" ("not:".toList ++ operand) = some operand := rfl
  rw [denialText, clauseText, parse_clause he hf hname hwhole htrim]
  simp only [applyClause, he, bind, Except.bind, hf, if_neg hpresent, hdenied]

variable {c : Catalog} {m : Model}

/-- A clause on a column is read exactly if its denial is. If both are conditions, no row is selected by the two,
and one of them selects each row that has a value in the column, if the engine takes the operands and none is null. -/
theorem denials_complement (h : c.WellFormed) (hm : c.model? entity = some m)
    (hf : (c.entity entity m).field? name = some field) (hscalar : field.isRelation = false)
    (hname : Addressable name) (ho : Deniable operand) :
    ((∃ tree, parse c.schema entity (clauseText name operand) = .ok tree) ↔
      ∃ denied, parse c.schema entity (denialText name operand) = .ok denied) ∧
    ∀ tree denied, parse c.schema entity (clauseText name operand) = .ok tree →
      parse c.schema entity (denialText name operand) = .ok denied →
      ∀ cond other, c.condition m (.object tree) = .ok cond → c.condition m (.object denied) = .ok other →
        ∀ db row, ¬ (cond.selects db row = true ∧ other.selects db row = true) ∧
          ((∀ o ∈ cond.operands, Condition.Taken o) → (row.get name).isNull = false →
            cond.selects db row = true ∨ other.selects db row = true) := by
  have hfield : field.name = name := by simpa using List.find?_some hf
  have hcolumn : m.link? name = none ∧ ∃ column, m.column? name = some column := by
    rcases field_cases h hm (hfield ▸ hf) with ⟨hr, _⟩ | ⟨_, hl, hc⟩
    · rw [hscalar] at hr
      cases hr
    · exact ⟨hfield ▸ hl, hfield ▸ hc⟩
  obtain ⟨hl, column, hc⟩ := hcolumn
  have he := c.schema_entity hm
  rw [parse_clauseText he hf hname ho, parse_denialText he hf hname ho]
  have hread := operand_opposed field ho.present
  rw [hfield] at hread
  rcases hread with ⟨tree, denied, htree, hdenied, hopposed⟩ | ⟨⟨_, htree⟩, _, hdenied⟩
  · rw [htree, hdenied]
    refine ⟨⟨fun _ => ⟨_, rfl⟩, fun _ => ⟨_, rfl⟩⟩, ?_⟩
    intro tree' denied' htree' hdenied' cond other hcond hother db row
    cases htree'
    cases hdenied'
    obtain ⟨habout, hopposite⟩ := Catalog.opposed_opposite hname.unreserved hl hc hopposed hcond hother
    exact ⟨hopposite.disjoint db row, fun htaken hrow => hopposite.covers (habout.decided hrow htaken)⟩
  · rw [htree, hdenied]
    refine ⟨⟨?_, ?_⟩, ?_⟩
    · rintro ⟨_, hok⟩
      cases hok
    · rintro ⟨_, hok⟩
      cases hok
    · intro _ _ hok
      cases hok

/-! Goods of a shop, looked for by their price. -/

def good : Model where
  name := "Good"
  table := "goods"
  columns := [{ name := "id", kind := .integer, isKey := true }, { name := "price", kind := .real }]

def shopCatalog : Catalog := ⟨[("Good", good)]⟩

theorem shopCatalog_wellFormed : shopCatalog.WellFormed where
  entities := by decide
  names := by simp [shopCatalog]
  closed := by simp [shopCatalog, good]
  apart := by simp [shopCatalog, good, Model.link?]

def cheapGood : Row := [("id", .integer 1), ("price", .real (.ofInt 2))]

def shopDatabase : Database := { tables := [("Good", [cheapGood])] }

theorem addressable_price : Addressable "price" where
  uncut := by simp
  trimmed := rfl
  unreserved := by decide

theorem priceRange_deniable : Deniable "between:1;3".toList where
  filled := by decide
  trimmed := rfl
  present := by decide
  asserted := rfl
  single := .inr (by decide)

def inRange : Condition :=
  .all [.all [.compare .atLeast "price" (.ok (.integer 1)), .compare .atMost "price" (.ok (.integer 3))]]

theorem inRange_taken : ∀ o ∈ inRange.operands, Condition.Taken o := by
  have hoperands : inRange.operands = [.ok (.integer 1), .ok (.integer 3)] := rfl
  intro o ho
  simp only [hoperands, List.mem_cons, List.not_mem_nil, or_false] at ho
  rcases ho with rfl | rfl <;> exact ⟨_, rfl, rfl⟩

/-- A range of prices and what lies outside of it. -/
theorem priceRange_complemented :
    (shopCatalog.entity "Good" good).field? "price" = some { name := "price", type := "float" } ∧
    Addressable "price" ∧ Deniable "between:1;3".toList ∧
    ∃ tree denied other, parse shopCatalog.schema "Good" (clauseText "price" "between:1;3".toList) = .ok tree ∧
      parse shopCatalog.schema "Good" (denialText "price" "between:1;3".toList) = .ok denied ∧
      shopCatalog.condition good (.object tree) = .ok inRange ∧ shopCatalog.condition good (.object denied) = .ok other ∧
      (∀ o ∈ inRange.operands, Condition.Taken o) ∧ (cheapGood.get "price").isNull = false ∧
      ¬ (inRange.selects shopDatabase cheapGood = true ∧ other.selects shopDatabase cheapGood = true) ∧
      (inRange.selects shopDatabase cheapGood = true ∨ other.selects shopDatabase cheapGood = true) := by
  have hf : (shopCatalog.entity "Good" good).field? "price" = some { name := "price", type := "float" } := rfl
  have htree : parse shopCatalog.schema "Good" (clauseText "price" "between:1;3".toList) =
    .ok [("price", .object [("gte", .int 1), ("lte", .int 3)])] := rfl
  have hdenied : parse shopCatalog.schema "Good" (denialText "price" "between:1;3".toList) =
    .ok [("NOT", .list [.object [("AND", .list [.object [("price", .object [("gte", .int 1)])],
      .object [("price", .object [("lte", .int 3)])]])]])] := rfl
  obtain ⟨_, hlaw⟩ := denials_complement shopCatalog_wellFormed rfl hf rfl addressable_price priceRange_deniable
  have hpair := hlaw _ _ htree hdenied inRange _ rfl rfl shopDatabase cheapGood
  exact ⟨hf, addressable_price, priceRange_deniable, _, _, _, htree, hdenied, rfl, rfl, inRange_taken, rfl,
    hpair.1, hpair.2 inRange_taken rfl⟩

theorem nan_deniable : Deniable "nan".toList where
  filled := by decide
  trimmed := rfl
  present := by decide
  asserted := rfl
  single := .inr (by decide)

theorem hugeId_deniable : Deniable "9223372036854775808".toList where
  filled := by decide
  trimmed := rfl
  present := by decide
  asserted := rfl
  single := .inr (by decide)

/-- A price that is compared with no number is selected by neither of a clause and its denial, and where an operand
is beyond what a cell holds neither of the two is answered. -/
theorem nanPrice_in_neither :
    (Addressable "price" ∧ Deniable "nan".toList ∧
      ∃ tree denied cond other, parse shopCatalog.schema "Good" (clauseText "price" "nan".toList) = .ok tree ∧
        parse shopCatalog.schema "Good" (denialText "price" "nan".toList) = .ok denied ∧
        shopCatalog.condition good (.object tree) = .ok cond ∧ shopCatalog.condition good (.object denied) = .ok other ∧
        cheapGood ∈ shopDatabase.rows good ∧ (cheapGood.get "price").isNull = false ∧
        cond.selects shopDatabase cheapGood = false ∧ other.selects shopDatabase cheapGood = false) ∧
    Addressable "id" ∧ Deniable "9223372036854775808".toList ∧
      ∃ tree denied cond other, parse shopCatalog.schema "Good" (clauseText "id" "9223372036854775808".toList) = .ok tree ∧
        parse shopCatalog.schema "Good" (denialText "id" "9223372036854775808".toList) = .ok denied ∧
        shopCatalog.condition good (.object tree) = .ok cond ∧ shopCatalog.condition good (.object denied) = .ok other ∧
        cond.bind = .error .illFormed ∧ other.bind = .error .illFormed := by
  refine ⟨⟨addressable_price, nan_deniable, [("price", .object [("equals", .text "nan")])],
    [("price", .object [("not", .object [("equals", .text "nan")])])], _, _, rfl, rfl, rfl, rfl,
    Database.mem_rows.mpr List.mem_cons_self, rfl, rfl, rfl⟩, ⟨by simp, rfl, by decide⟩, hugeId_deniable,
    [("id", .object [("equals", .int 9223372036854775808)])],
    [("id", .object [("not", .object [("equals", .int 9223372036854775808)])])], _, _, rfl, rfl, rfl, rfl, rfl, rfl⟩

end Filter

end RecordGraph
