import RecordGraph.Proofs.Filter.Clauses
import RecordGraph.Proofs.Relational.Finding
import RecordGraph.Proofs.Relational.Lookup
import RecordGraph.Proofs.Text.Splitting

/-!
# Clauses that are joined

A text of several clauses is read clause by clause, and its tree is got from the trees of the clauses alone.
Where these agree on the members that they share, a row satisfies the whole exactly if it satisfies them all.
-/

namespace RecordGraph

/-! ## Commas between clauses -/

section Text

variable {text next rest : List Char} {texts : List (List Char)}

theorem joinWith_cons : joinWith [','] (text :: next :: texts) = text ++ ',' :: joinWith [','] (next :: texts) := by
  simp [joinWith]

theorem closesNext_append (h : closesNext text = true) : closesNext (text ++ rest) = true := by
  induction text with
  | nil => cases h
  | cons ch text ih =>
      simp only [closesNext, List.cons_append, Bool.or_eq_true, Bool.and_eq_true] at h ⊢
      exact h.imp id (And.imp_right ih)

theorem not_closesNext_append (h : closesNext text = false) (hrest : closesNext rest = false) :
    closesNext (text ++ rest) = false := by
  induction text with
  | nil => exact hrest
  | cons ch text ih =>
      simp only [closesNext, List.cons_append, Bool.or_eq_false_iff, Bool.and_eq_false_iff] at h ⊢
      exact h.imp id (Or.imp_right ih)

theorem not_closesNext_joinWith (h : ∀ text ∈ texts, closesNext text = false) :
    closesNext (joinWith [','] texts) = false := by
  induction texts with
  | nil => rfl
  | cons text texts ih =>
      have htext := h text List.mem_cons_self
      cases texts with
      | nil => exact htext
      | cons next texts =>
          rw [joinWith_cons]
          apply not_closesNext_append htext
          simpa [closesNext] using ih fun text hin => h text (List.mem_cons_of_mem _ hin)

/-- A clause ends at a comma behind it, unless the comma belongs to a list of operands. -/
theorem splitClauses_append (h : splitClauses text = [text]) (hrest : closesNext rest = false) :
    splitClauses (text ++ ',' :: rest) = text :: splitClauses rest := by
  induction text with
  | nil => simp [splitClauses, hrest]
  | cons ch text ih =>
      rw [splitClauses] at h
      split at h
      · simp at h
      · rename_i hcomma
        have htext : splitClauses text = [text] := by
          split at h
          · rename_i hnil
            exact absurd hnil (splitClauses_ne_nil text)
          · simp at h
            simp_all
        have hkept : ¬(ch = ',' ∧ closesNext (text ++ ',' :: rest) = false) := by
          rintro ⟨rfl, hopen⟩
          have hcloses : closesNext text = true := by simpa using hcomma
          rw [closesNext_append hcloses] at hopen
          cases hopen
        simp only [List.cons_append, splitClauses, if_neg hkept, ih htext]

theorem splitClauses_joinWith (hwhole : ∀ text ∈ texts, splitClauses text = [text]) (hne : texts ≠ [])
    (hopen : ∀ text ∈ texts.tail, closesNext text = false) : splitClauses (joinWith [','] texts) = texts := by
  induction texts with
  | nil => exact absurd rfl hne
  | cons text texts ih =>
      have htext := hwhole text List.mem_cons_self
      cases texts with
      | nil => exact htext
      | cons next texts =>
          have hrest : closesNext (joinWith [','] (next :: texts)) = false := not_closesNext_joinWith hopen
          rw [joinWith_cons, splitClauses_append htext hrest]
          congr 1
          apply ih
          · exact fun text hin => hwhole text (List.mem_cons_of_mem _ hin)
          · simp
          · exact fun text hin => hopen text (List.mem_of_mem_tail hin)

theorem mem_joinWith {ch : Char} (hin : text ∈ texts) (h : ch ∈ text) : ch ∈ joinWith [','] texts := by
  induction texts with
  | nil => cases hin
  | cons first texts ih =>
      cases texts with
      | nil => exact List.mem_singleton.mp hin ▸ h
      | cons next texts =>
          rw [joinWith_cons, List.mem_append]
          rcases List.mem_cons.mp hin with rfl | hin
          · exact .inl h
          · exact .inr (List.mem_cons_of_mem _ (ih hin))

end Text

namespace Filter

variable {s : Schema} {entity : String} {tree own : Object} {text : List Char} {texts : List (List Char)}
  {trees : List Object}

/-! ## Trees of the clauses alone -/

/-- A tree with what another one says: collected items are added, other members are replaced. -/
def absorb (tree own : Object) : Object :=
  own.foldl (fun tree kv => if kv.1 ∈ collecting then addTo kv.1 kv.2.asItems tree else Object.set kv.1 kv.2 tree) tree

/-- A text that is one clause on a field of an entity, and its tree. -/
structure Alone (s : Schema) (entity : String) (text : List Char) (own : Object) : Prop where
  whole : splitClauses text = [text]
  addresses : ∃ e clause field, s.entity entity = .ok e ∧ Clause.read? text = some clause ∧ clause.path = [] ∧
    e.field? clause.name = some field ∧ clause.name ∉ collecting
  parsed : parse s entity text = .ok own

theorem parse_split (h : '=' ∈ text) : parse s entity text = (splitClauses text).foldlM (addClause s entity) [] := by
  unfold parse
  have hin : '=' ∈ trim text := mem_trim (by decide) h
  have hne : (trim text).isEmpty = false := by
    cases htrim : trim text with
    | nil => simp [htrim] at hin
    | cons _ _ => rfl
  simp [hne]

theorem Alone.equals (h : Alone s entity text own) : '=' ∈ text := by
  obtain ⟨_, _, _, _, hread, _⟩ := h.addresses
  unfold Clause.read? at hread
  split at hread
  · cases hread
  · rename_i hcut
    exact mem_of_cutAt hcut

/-- A mark is left on a tree as the tree of the clause alone says. -/
theorem Mark.on_eq_absorb {field : Field} {operand : List Char} {mark : Mark} (h : Mark.Says field operand mark)
    (hname : field.name ∉ collecting) : mark.on tree = absorb tree (mark.on []) := by
  have hmember (v : Value) : (Mark.member field.name v).on tree = absorb tree ((Mark.member field.name v).on []) := by
    simp [Mark.on, absorb, Object.set, hname]
  have hitems {key : String} (hkey : key ∈ collecting) (vs : List Value) :
      (Mark.items key vs).on tree = absorb tree ((Mark.items key vs).on []) := by
    simp [Mark.on, absorb, addTo, Object.set, Object.get, Object.get?, Value.asItems, hkey]
  cases h with
  | none => rfl
  | missing | present | compared => exact hmember _
  | listed _ hkey => exact hitems hkey _
  | excluded => exact hitems (by decide) _

theorem Alone.addClause_nil (h : Alone s entity text own) : addClause s entity [] text = .ok own := by
  have hparsed := h.parsed
  rw [parse_split h.equals, h.whole, List.foldlM_cons, bind_ok_iff] at hparsed
  obtain ⟨next, hnext, hlast⟩ := hparsed
  cases hlast
  exact hnext

theorem Alone.addClause (h : Alone s entity text own) (tree : Object) :
    addClause s entity tree text = .ok (absorb tree own) := by
  obtain ⟨e, clause, field, he, hread, hpath, hf, hname⟩ := h.addresses
  obtain ⟨outcome, hchange, hmark⟩ := addClause_leaves he hread hpath hf
  have hown := h.addClause_nil
  simp only [hchange] at hown ⊢
  cases outcome with
  | error failure => cases hown
  | ok mark =>
      cases hown
      have hfield : field.name = clause.name := by simpa using List.find?_some hf
      have hsaid : mark.on tree = absorb tree (mark.on []) := Mark.on_eq_absorb (hmark mark rfl) (hfield ▸ hname)
      simp [Except.map, hsaid]

/-- The tree of clauses that are joined is got from their trees, one after the other. -/
theorem parse_joinWith (h : List.Forall₂ (Alone s entity) texts trees)
    (hopen : ∀ text ∈ texts.tail, closesNext text = false) :
    parse s entity (joinWith [','] texts) = .ok (trees.foldl absorb []) := by
  have hadded (tree : Object) : texts.foldlM (addClause s entity) tree = .ok (trees.foldl absorb tree) := by
    clear hopen
    induction h generalizing tree with
    | nil => rfl
    | cons hfirst _ ih =>
        rw [List.foldlM_cons, hfirst.addClause]
        exact ih _
  have hwhole : ∀ text ∈ texts, splitClauses text = [text] := by
    intro text hin
    obtain ⟨_, _, halone⟩ := forall₂_partner h hin
    exact halone.whole
  cases texts with
  | nil =>
      cases h
      rfl
  | cons first texts =>
      obtain ⟨_, _, hfirst⟩ := forall₂_partner h List.mem_cons_self
      rw [parse_split (mem_joinWith List.mem_cons_self hfirst.equals), splitClauses_joinWith hwhole (by simp) hopen]
      exact hadded []

/-! ## What the joined tree says -/

variable {key : String} {v : Value}

theorem absorb_cons {rest : Object} : absorb tree ((key, v) :: rest) =
    absorb (if key ∈ collecting then addTo key v.asItems tree else Object.set key v tree) rest := rfl

theorem get?_addTo_of_ne {other : String} (h : other ≠ key) (vs : List Value) :
    Object.get? key (addTo other vs tree) = Object.get? key tree :=
  Object.get?_set_of_ne h ..

theorem get?_absorb (hkey : key ∉ collecting) (hn : own.keys.Nodup) :
    Object.get? key (absorb tree own) = (Object.get? key own).or (Object.get? key tree) := by
  induction own generalizing tree with
  | nil => rfl
  | cons kv rest ih =>
      obtain ⟨k, v⟩ := kv
      simp only [Object.keys, List.map_cons, List.nodup_cons] at hn
      rw [absorb_cons, ih hn.2]
      by_cases hk : k = key
      · subst hk
        have hrest : Object.get? k rest = none := Object.get?_eq_none_iff.mpr hn.1
        simp [hrest, hkey, Object.get?, Object.get?_set_self]
      · simp only [Object.get?, if_neg hk]
        split
        · rw [get?_addTo_of_ne hk]
        · rw [Object.get?_set_of_ne hk]

theorem items_absorb (hkey : key ∈ collecting) (hn : own.keys.Nodup) :
    (Object.get (absorb tree own) key).asItems = (Object.get tree key).asItems ++ (Object.get own key).asItems := by
  induction own generalizing tree with
  | nil => simp [absorb, Object.get, Object.get?, Value.asItems]
  | cons kv rest ih =>
      obtain ⟨k, v⟩ := kv
      simp only [Object.keys, List.map_cons, List.nodup_cons] at hn
      rw [absorb_cons, ih hn.2]
      by_cases hk : k = key
      · subst hk
        have hrest : Object.get? k rest = none := Object.get?_eq_none_iff.mpr hn.1
        simp [hrest, hkey, addTo, Object.get, Object.get?, Object.get?_set_self, Value.asItems]
      · simp only [Object.get, Object.get?, if_neg hk]
        split
        · rw [get?_addTo_of_ne hk]
        · rw [Object.get?_set_of_ne hk]

theorem nodup_absorb (hn : tree.keys.Nodup) : (absorb tree own).keys.Nodup := by
  induction own generalizing tree with
  | nil => exact hn
  | cons kv rest ih =>
      rw [absorb_cons]
      apply ih
      split
      · exact Object.nodup_keys_set hn
      · exact Object.nodup_keys_set hn

/-- The last tree that has a member decides on it. -/
theorem get?_foldl_absorb (hkey : key ∉ collecting) (hn : ∀ own ∈ trees, own.keys.Nodup) :
    Object.get? key (trees.foldl absorb tree) = (trees.reverse.findSome? (Object.get? key)).or (Object.get? key tree) := by
  induction trees generalizing tree with
  | nil => rfl
  | cons own trees ih =>
      rw [List.foldl_cons, ih fun own hin => hn own (List.mem_cons_of_mem _ hin),
        get?_absorb hkey (hn own List.mem_cons_self), List.reverse_cons, List.findSome?_append]
      simp [Option.or_assoc]

/-- What is collected by one tree is collected by all of them together. -/
theorem items_foldl_absorb (hkey : key ∈ collecting) (hn : ∀ own ∈ trees, own.keys.Nodup) :
    (Object.get (trees.foldl absorb tree) key).asItems =
      (Object.get tree key).asItems ++ trees.flatMap fun own => (Object.get own key).asItems := by
  induction trees generalizing tree with
  | nil => simp
  | cons own trees ih =>
      rw [List.foldl_cons, ih fun own hin => hn own (List.mem_cons_of_mem _ hin),
        items_absorb hkey (hn own List.mem_cons_self)]
      simp

theorem nodup_foldl_absorb (hn : tree.keys.Nodup) : (trees.foldl absorb tree).keys.Nodup := by
  induction trees generalizing tree with
  | nil => exact hn
  | cons own trees ih => exact ih (nodup_absorb hn)

end Filter

namespace Catalog

open RecordGraph.Filter

variable {c : Catalog} {m : Model} {db : Database} {row : Row} {o : Object} {v w : Value}

theorem satisfiesMember_or_iff : c.SatisfiesMember m db row ("OR", v) ↔
    (∀ item ∈ v.asItems, ∃ cond, c.condition m item = .ok cond) ∧
      (v.asItems ≠ [] → ∃ item ∈ v.asItems, c.Satisfies m db row item) := by
  have hselects (ps : List Condition) : (if ps.isEmpty then Condition.always else .any ps).selects db row = true ↔
      (ps ≠ [] → ∃ p ∈ ps, p.selects db row = true) := by
    cases ps with
    | nil => simp [Condition.always, Condition.selects_all_iff]
    | cons p ps => simp [Condition.selects_any_iff]
  simp only [SatisfiesMember, memberCondition, map_ok_iff]
  constructor
  · rintro ⟨_, ⟨ps, hps, rfl⟩, hsel⟩
    have hall := parts_ok_iff.mp hps
    constructor
    · intro item hitem
      obtain ⟨p, _, hread⟩ := forall₂_partner hall hitem
      exact ⟨p, hread⟩
    · intro hne
      have hps : ps ≠ [] := by
        rintro rfl
        exact hne (List.forall₂_nil_right_iff.mp hall)
      obtain ⟨p, hp, hsel⟩ := (hselects ps).mp hsel hps
      obtain ⟨item, hitem, hread⟩ := forall₂_partner hall.flip hp
      exact ⟨item, hitem, p, hread, hsel⟩
  · rintro ⟨hread, hsome⟩
    obtain ⟨ps, hall, -⟩ := exists_forall₂_iff (P := fun _ => True).mpr fun item hitem =>
      (hread item hitem).imp fun _ h => ⟨h, trivial⟩
    refine ⟨_, ⟨ps, parts_ok_iff.mpr hall, rfl⟩, (hselects ps).mpr fun hps => ?_⟩
    have hne : v.asItems ≠ [] := by
      intro hempty
      rw [hempty] at hall
      exact hps (List.forall₂_nil_left_iff.mp hall)
    obtain ⟨item, hitem, p, hp, hsel⟩ := hsome hne
    obtain ⟨p', hin, hread'⟩ := forall₂_partner hall hitem
    cases hp.symm.trans hread'
    exact ⟨p, hin, hsel⟩

theorem satisfiesMember_missing {key : String} (hkey : key ∈ collecting) : c.SatisfiesMember m db row (key, .null) := by
  simp only [collecting, List.mem_cons, List.not_mem_nil, or_false] at hkey
  rcases hkey with rfl | rfl
  · exact satisfiesMember_or_iff.mpr (by simp [Value.asItems])
  · exact satisfiesMember_not_iff.mpr (by simp [Value.asItems])

/-- Only which items are collected counts, not where or how often. -/
theorem satisfiesMember_collecting_congr {key : String} (hkey : key ∈ collecting)
    (h : ∀ item, item ∈ v.asItems ↔ item ∈ w.asItems) :
    c.SatisfiesMember m db row (key, v) ↔ c.SatisfiesMember m db row (key, w) := by
  simp only [collecting, List.mem_cons, List.not_mem_nil, or_false] at hkey
  rcases hkey with rfl | rfl
  · have hempty : v.asItems = [] ↔ w.asItems = [] := by simp only [List.eq_nil_iff_forall_not_mem, h]
    simp only [satisfiesMember_or_iff, ne_eq, hempty, h]
  · simp only [satisfiesMember_not_iff, h]

/-- A row satisfies a tree if it satisfies the members that it has and the items that it collects. -/
theorem satisfies_collecting_iff (hn : o.keys.Nodup) : c.Satisfies m db row (.object o) ↔
    (∀ key v, key ∉ collecting → Object.get? key o = some v → c.SatisfiesMember m db row (key, v)) ∧
      ∀ key ∈ collecting, c.SatisfiesMember m db row (key, o.get key) := by
  rw [satisfies_object_iff]
  constructor
  · intro h
    constructor
    · intro key v _ hv
      exact h _ (Object.mem_of_get? hv)
    · intro key hkey
      by_cases hnull : o.get key = .null
      · rw [hnull]
        exact satisfiesMember_missing hkey
      · exact h _ (Object.mem_of_get_ne_null hnull)
  · rintro ⟨hnamed, hcollected⟩ ⟨key, v⟩ hin
    have hv := Object.get?_of_mem hn hin
    by_cases hkey : key ∈ collecting
    · have hmember := hcollected key hkey
      simp only [Object.get, hv, Option.getD_some] at hmember
      exact hmember
    · exact hnamed key v hkey hv

end Catalog

namespace Filter

/-- Trees that say the same wherever they have a member in common, the items that they exclude aside. -/
def Agree (own other : Object) : Prop :=
  ∀ key v w, key ≠ "NOT" → Object.get? key own = some v → Object.get? key other = some w → v = w

variable {s : Schema} {entity : String} {own : Object} {text : List Char} {texts : List (List Char)}
  {trees : List Object} {c : Catalog} {m : Model} {db : Database} {row : Row}

theorem Alone.nodup (h : Alone s entity text own) : own.keys.Nodup := by
  have hown : own = absorb [] own := by
    have hadd := h.addClause []
    rw [h.addClause_nil] at hadd
    exact Except.ok.inj hadd
  rw [hown]
  exact nodup_absorb List.nodup_nil

theorem get?_joined {key : String} {v : Value} (hkey : key ∉ collecting) (hn : ∀ own ∈ trees, own.keys.Nodup)
    (hagree : ∀ own ∈ trees, ∀ other ∈ trees, Agree own other) :
    Object.get? key (trees.foldl absorb []) = some v ↔ ∃ own ∈ trees, Object.get? key own = some v := by
  have hnot : key ≠ "NOT" := by
    rintro rfl
    exact hkey (by decide)
  rw [get?_foldl_absorb hkey hn]
  simp only [Object.get?, Option.or_none]
  constructor
  · intro h
    obtain ⟨own, hin, hv⟩ := List.exists_of_findSome?_eq_some h
    exact ⟨own, List.mem_reverse.mp hin, hv⟩
  · rintro ⟨own, hin, hv⟩
    cases hfound : trees.reverse.findSome? (Object.get? key) with
    | none =>
        have hnone := List.findSome?_eq_none_iff.mp hfound own (List.mem_reverse.mpr hin)
        rw [hv] at hnone
        cases hnone
    | some w =>
        obtain ⟨other, hother, hw⟩ := List.exists_of_findSome?_eq_some hfound
        rw [hagree own hin other (List.mem_reverse.mp hother) key v w hnot hv hw]

theorem mem_items_joined {key : String} {item : Value} (hkey : key ∈ collecting) (hn : ∀ own ∈ trees, own.keys.Nodup) :
    item ∈ (Object.get (trees.foldl absorb []) key).asItems ↔ ∃ own ∈ trees, item ∈ (Object.get own key).asItems := by
  rw [items_foldl_absorb hkey hn]
  simp [Object.get, Object.get?, Value.asItems]

theorem excluded_joined_iff (hn : ∀ own ∈ trees, own.keys.Nodup) :
    c.SatisfiesMember m db row ("NOT", Object.get (trees.foldl absorb []) "NOT") ↔
      ∀ own ∈ trees, c.SatisfiesMember m db row ("NOT", own.get "NOT") := by
  have hnot : "NOT" ∈ collecting := by decide
  simp only [Catalog.satisfiesMember_not_iff, mem_items_joined hnot hn]
  constructor
  · intro h own hown item hitem
    exact h item ⟨own, hown, hitem⟩
  · rintro h item ⟨own, hown, hitem⟩
    exact h own hown item hitem

/-- Trees that agree have the same alternatives or none, so that they are alternatives of each tree still. -/
theorem alternatives_joined_iff (hn : ∀ own ∈ trees, own.keys.Nodup)
    (hagree : ∀ own ∈ trees, ∀ other ∈ trees, Agree own other) :
    c.SatisfiesMember m db row ("OR", Object.get (trees.foldl absorb []) "OR") ↔
      ∀ own ∈ trees, c.SatisfiesMember m db row ("OR", own.get "OR") := by
  have hor : "OR" ∈ collecting := by decide
  by_cases hsome : ∃ first ∈ trees, ∃ v, Object.get? "OR" first = some v
  · obtain ⟨first, hfirst, v, hv⟩ := hsome
    have hown : ∀ own ∈ trees, own.get "OR" = .null ∨ own.get "OR" = v := by
      intro own hin
      cases hget : Object.get? "OR" own with
      | none => simp [Object.get, hget]
      | some w =>
          have heq : w = v := hagree own hin first hfirst "OR" w v (by decide) hget hv
          simp [Object.get, hget, heq]
    have hitems (item : Value) : item ∈ (Object.get (trees.foldl absorb []) "OR").asItems ↔ item ∈ v.asItems := by
      rw [mem_items_joined hor hn]
      constructor
      · rintro ⟨own, hin, hitem⟩
        rcases hown own hin with hnull | hsame
        · simp [hnull, Value.asItems] at hitem
        · exact hsame ▸ hitem
      · intro hitem
        exact ⟨first, hfirst, by simpa [Object.get, hv] using hitem⟩
    rw [Catalog.satisfiesMember_collecting_congr hor hitems]
    constructor
    · intro h own hin
      rcases hown own hin with hnull | hsame
      · exact hnull ▸ Catalog.satisfiesMember_missing hor
      · exact hsame ▸ h
    · intro h
      simpa [Object.get, hv] using h first hfirst
  · have hnone : ∀ own ∈ trees, own.get "OR" = .null := by
      intro own hin
      cases hget : Object.get? "OR" own with
      | none => simp [Object.get, hget]
      | some v => exact absurd ⟨own, hin, v, hget⟩ hsome
    have hitems (item : Value) :
        item ∈ (Object.get (trees.foldl absorb []) "OR").asItems ↔ item ∈ Value.null.asItems := by
      rw [mem_items_joined hor hn]
      constructor
      · rintro ⟨own, hin, hitem⟩
        rwa [hnone own hin] at hitem
      · intro hitem
        cases hitem
    rw [Catalog.satisfiesMember_collecting_congr hor hitems]
    constructor
    · intro h own hin
      exact hnone own hin ▸ h
    · intro _
      exact Catalog.satisfiesMember_missing hor

/-- Of the members that are replaced the last one counts; all items that are excluded are; of the alternatives
of all clauses one is enough. -/
theorem satisfies_joined (hn : ∀ own ∈ trees, own.keys.Nodup) :
    c.Satisfies m db row (.object (trees.foldl absorb [])) ↔
      (∀ key v, key ∉ collecting → trees.reverse.findSome? (Object.get? key) = some v →
        c.SatisfiesMember m db row (key, v)) ∧
      (∀ own ∈ trees, c.SatisfiesMember m db row ("NOT", own.get "NOT")) ∧
      c.SatisfiesMember m db row ("OR", .list (trees.flatMap fun own => (own.get "OR").asItems)) := by
  have hwhole : (trees.foldl absorb []).keys.Nodup := nodup_foldl_absorb List.nodup_nil
  have hget {key : String} (hkey : key ∉ collecting) :
      Object.get? key (trees.foldl absorb []) = trees.reverse.findSome? (Object.get? key) := by
    rw [get?_foldl_absorb hkey hn]
    exact Option.or_none
  have hor : c.SatisfiesMember m db row ("OR", Object.get (trees.foldl absorb []) "OR") ↔
      c.SatisfiesMember m db row ("OR", .list (trees.flatMap fun own => (own.get "OR").asItems)) := by
    apply Catalog.satisfiesMember_collecting_congr (by decide)
    intro item
    rw [mem_items_joined (by decide) hn]
    simp [Value.asItems]
  rw [Catalog.satisfies_collecting_iff hwhole, ← hor, ← excluded_joined_iff hn]
  constructor
  · rintro ⟨hnamed, hcollected⟩
    refine ⟨fun key v hkey hv => hnamed key v hkey ((hget hkey).trans hv), hcollected "NOT" (by decide),
      hcollected "OR" (by decide)⟩
  · rintro ⟨hnamed, hexcluded, halternatives⟩
    refine ⟨fun key v hkey hv => hnamed key v hkey ((hget hkey).symm.trans hv), fun key hkey => ?_⟩
    simp only [collecting, List.mem_cons, List.not_mem_nil, or_false] at hkey
    rcases hkey with rfl | rfl
    · exact halternatives
    · exact hexcluded

/-- Trees that agree are satisfied together exactly if each of them is. -/
theorem satisfies_joined_iff (hn : ∀ own ∈ trees, own.keys.Nodup)
    (hagree : ∀ own ∈ trees, ∀ other ∈ trees, Agree own other) :
    c.Satisfies m db row (.object (trees.foldl absorb [])) ↔ ∀ own ∈ trees, c.Satisfies m db row (.object own) := by
  have hwhole : (trees.foldl absorb []).keys.Nodup := nodup_foldl_absorb List.nodup_nil
  rw [Catalog.satisfies_collecting_iff hwhole]
  constructor
  · rintro ⟨hnamed, hcollected⟩ own hin
    refine (Catalog.satisfies_collecting_iff (hn own hin)).mpr ⟨fun key v hkey hv => ?_, fun key hkey => ?_⟩
    · exact hnamed key v hkey ((get?_joined hkey hn hagree).mpr ⟨own, hin, hv⟩)
    · simp only [collecting, List.mem_cons, List.not_mem_nil, or_false] at hkey
      rcases hkey with rfl | rfl
      · exact (alternatives_joined_iff hn hagree).mp (hcollected "OR" (by decide)) own hin
      · exact (excluded_joined_iff hn).mp (hcollected "NOT" (by decide)) own hin
  · intro h
    have hown := fun own hin => (Catalog.satisfies_collecting_iff (hn own hin)).mp (h own hin)
    refine ⟨fun key v hkey hv => ?_, fun key hkey => ?_⟩
    · obtain ⟨own, hin, hv⟩ := (get?_joined hkey hn hagree).mp hv
      exact (hown own hin).1 key v hkey hv
    · simp only [collecting, List.mem_cons, List.not_mem_nil, or_false] at hkey
      rcases hkey with rfl | rfl
      · exact (alternatives_joined_iff hn hagree).mpr fun own hin => (hown own hin).2 "OR" (by decide)
      · exact (excluded_joined_iff hn).mpr fun own hin => (hown own hin).2 "NOT" (by decide)

/-- Clauses on fields of an entity are read together, unless one of them but the first closes a bracket before
it opens one. If they agree on what they share, a row satisfies the whole exactly if it satisfies each of them. -/
theorem joined_clauses_conjoined (h : List.Forall₂ (Alone s entity) texts trees)
    (hopen : ∀ text ∈ texts.tail, closesNext text = false) :
    ∃ tree, parse s entity (joinWith [','] texts) = .ok tree ∧
      ∀ (c : Catalog) (m : Model) (db : Database) (row : Row),
        (c.Satisfies m db row (.object tree) ↔
          (∀ key v, key ∉ collecting → trees.reverse.findSome? (Object.get? key) = some v →
            c.SatisfiesMember m db row (key, v)) ∧
          (∀ own ∈ trees, c.SatisfiesMember m db row ("NOT", own.get "NOT")) ∧
          c.SatisfiesMember m db row ("OR", .list (trees.flatMap fun own => (own.get "OR").asItems))) ∧
        ((∀ own ∈ trees, ∀ other ∈ trees, Agree own other) →
          (c.Satisfies m db row (.object tree) ↔ ∀ own ∈ trees, c.Satisfies m db row (.object own))) := by
  have hn : ∀ own ∈ trees, own.keys.Nodup := by
    intro own hin
    obtain ⟨_, _, halone⟩ := forall₂_partner h.flip hin
    exact halone.nodup
  refine ⟨_, parse_joinWith h hopen, fun c m db row => ⟨satisfies_joined hn, ?_⟩⟩
  exact satisfies_joined_iff hn

/-! Comments of a blog that are looked for by several clauses. -/

def lettered : List Char := "body=%e%".toList

def letteredTree : Object := [("body", .object [("contains", .text "e")])]

def unranged (low high : Nat) : Object :=
  [("NOT", .list [.object [("AND", .list [.object [("id", .object [("gte", .int low)])],
    .object [("id", .object [("lte", .int high)])]])]])]

theorem lettered_alone : Alone Catalog.blogCatalog.schema "Comment" lettered letteredTree where
  whole := rfl
  addresses := ⟨_, _, _, rfl, rfl, rfl, rfl, by decide⟩
  parsed := rfl

theorem lowRange_alone :
    Alone Catalog.blogCatalog.schema "Comment" "id=not:between:2;5".toList (unranged 2 5) where
  whole := rfl
  addresses := ⟨_, _, _, rfl, rfl, rfl, rfl, by decide⟩
  parsed := rfl

theorem highRange_alone :
    Alone Catalog.blogCatalog.schema "Comment" "id=not:between:7;9".toList (unranged 7 9) where
  whole := rfl
  addresses := ⟨_, _, _, rfl, rfl, rfl, rfl, by decide⟩
  parsed := rfl

theorem searchedComments_conjoined :
    (∀ text ∈ ["id=not:between:2;5".toList, "id=not:between:7;9".toList], closesNext text = false) ∧
    (∀ own ∈ [letteredTree, unranged 2 5, unranged 7 9], ∀ other ∈ [letteredTree, unranged 2 5, unranged 7 9],
      Agree own other) ∧
    ∃ tree, parse Catalog.blogCatalog.schema "Comment"
        (joinWith [','] [lettered, "id=not:between:2;5".toList, "id=not:between:7;9".toList]) = .ok tree ∧
      ∀ m db row, Catalog.blogCatalog.Satisfies m db row (.object tree) ↔
        ∀ own ∈ [letteredTree, unranged 2 5, unranged 7 9], Catalog.blogCatalog.Satisfies m db row (.object own) := by
  have hopen : ∀ text ∈ ["id=not:between:2;5".toList, "id=not:between:7;9".toList], closesNext text = false := by decide
  have hagree : ∀ own ∈ [letteredTree, unranged 2 5, unranged 7 9],
      ∀ other ∈ [letteredTree, unranged 2 5, unranged 7 9], Agree own other := by
    intro own hown other hother key v w hkey hv hw
    have hranged (low high : Nat) : Object.get? key (unranged low high) = none := by
      simp [unranged, Object.get?, hkey.symm]
    simp only [List.mem_cons, List.not_mem_nil, or_false] at hown hother
    rcases hown with rfl | rfl | rfl
    · rcases hother with rfl | rfl | rfl
      · exact Option.some.inj (hv.symm.trans hw)
      · simp [hranged] at hw
      · simp [hranged] at hw
    · simp [hranged] at hv
    · simp [hranged] at hv
  obtain ⟨tree, htree, hlaw⟩ :=
    joined_clauses_conjoined (.cons lettered_alone (.cons lowRange_alone (.cons highRange_alone .nil))) hopen
  exact ⟨hopen, hagree, tree, htree, fun m db row => (hlaw _ m db row).2 hagree⟩

def leastComment : Row := [("id", .integer 1), ("body", .text "yes"), ("approved", .integer 1), ("postId", .integer 3)]

/-- Of two bounds on one field the first one is lost: the comment with the least id is found. -/
theorem idRange_widened :
    Alone Catalog.blogCatalog.schema "Comment" "id=gt:1".toList [("id", .object [("gt", .int 1)])] ∧
    Alone Catalog.blogCatalog.schema "Comment" "id=lt:3".toList [("id", .object [("lt", .int 3)])] ∧
    ∃ tree, parse Catalog.blogCatalog.schema "Comment" "id=gt:1,id=lt:3".toList = .ok tree ∧
      ∃ m, Catalog.blogCatalog.model? "Comment" = some m ∧ ∃ row ∈ Catalog.blogDatabase.rows m,
        Catalog.blogCatalog.Satisfies m Catalog.blogDatabase row (.object tree) ∧
        ¬ Catalog.blogCatalog.Satisfies m Catalog.blogDatabase row (.object [("id", .object [("gt", .int 1)])]) := by
  refine ⟨⟨rfl, ⟨_, _, _, rfl, rfl, rfl, rfl, by decide⟩, rfl⟩, ⟨rfl, ⟨_, _, _, rfl, rfl, rfl, rfl, by decide⟩, rfl⟩,
    [("id", .object [("lt", .int 3)])], rfl, _, rfl, leastComment, ?_, ?_, ?_⟩
  · exact Database.mem_rows.mpr List.mem_cons_self
  · exact ⟨.all [.all [.compare .less "id" (.ok (.integer 3))]], rfl, rfl⟩
  · rintro ⟨cond, hcond, hsel⟩
    have hread : .ok (.all [.all [.compare .greater "id" (.ok (.integer 1))]]) = Except.ok cond := hcond
    cases hread
    revert hsel
    decide

end Filter

end RecordGraph
