import RecordGraph.Proofs.Access.Conjunction
import RecordGraph.Proofs.Query.Filtering
import RecordGraph.Proofs.Relational.Deciding
import RecordGraph.Proofs.Relational.Likeness

/-!
# What filters name

A filter names columns by their names, by those of whole keys, and by the links that it follows. It depends
on no other column: one that names no veiled column has the same outcome for rows that are alike. What
merging, cleaning and the freeing of a parent make of filters names nothing new.
-/

namespace RecordGraph

/-- A condition on a column that is not veiled has one outcome for rows that are alike. -/
theorem Condition.About.agrees {veil : Veil} {db db' : Database} {model column : String} {cond : Condition}
    (h : About column cond) (hc : (model, column) ∉ veil) : cond.Agrees veil db db' model := by
  induction h with
  | isNull => exact agrees_isNull hc
  | compare => exact agrees_compare hc
  | among => exact agrees_among hc
  | finds => exact agrees_finds hc
  | all _ ih => exact agrees_all ih
  | any _ ih => exact agrees_any ih
  | negation _ ih => exact ih.negation

/-- The filters of linked rows that stand under the name of a link, each under a word or one without. -/
def Link.filters (l : Link) (v : Value) : List Value :=
  match v with
  | .object members => if l.isWorded members then members.map Prod.snd else [.object members]
  | _ => []

theorem Link.sizeOf_filters {l : Link} {v u : Value} (h : u ∈ l.filters v) : sizeOf u ≤ sizeOf v := by
  cases v with
  | object members =>
      simp only [filters] at h
      split at h
      · obtain ⟨⟨word, w⟩, hw, rfl⟩ := List.mem_map.mp h
        exact Nat.le_of_lt (Value.sizeOf_member hw)
      · rw [List.mem_singleton.mp h]
  | _ => cases h

namespace Catalog

theorem named_name {c : Catalog} {name : String} {m : Model} (h : c.named name = .ok m) : m.name = name := by
  unfold named at h
  split at h
  · rename_i hfind
    obtain rfl := pure_ok_iff.mp h
    simpa using List.find?_some hfind
  · cases h

mutual

/-- A filter of rows of a model names a column, which stands with the name of its model. -/
inductive Names (c : Catalog) : Model → Value → String × String → Prop
  | item {m items v p} (hin : v ∈ items) (h : Names c m v p) : Names c m (.list items) p
  | member {m members kv p} (hin : kv ∈ members) (h : NamesMember c m kv p) : Names c m (.object members) p

inductive NamesMember (c : Catalog) : Model → String × Value → String × String → Prop
  | logical {m key v p} (hk : key ∈ ["AND", "OR", "NOT"]) (h : Names c m v p) : NamesMember c m (key, v) p
  | held {m key v l p} (hk : key ∉ ["AND", "OR", "NOT"]) (hl : m.link? key = some l)
      (hp : p ∈ l.heldIn m.name) : NamesMember c m (key, v) p
  | linked {m key v l target u p} (hk : key ∉ ["AND", "OR", "NOT"]) (hl : m.link? key = some l)
      (ht : c.named l.target = .ok target) (hu : u ∈ l.filters v) (h : Names c target u p) :
      NamesMember c m (key, v) p
  | column {m key v column} (hk : key ∉ ["AND", "OR", "NOT"]) (hl : m.link? key = none)
      (hc : m.column? key = some column) : NamesMember c m (key, v) (m.name, column.name)
  | part {m key v parts part} (hk : key ∉ ["AND", "OR", "NOT"]) (hl : m.link? key = none)
      (hc : m.column? key = none) (hv : m.compoundKey? v = some parts) (hp : part ∈ parts) :
      NamesMember c m (key, v) (m.name, part.1.name)

end

/-- A filter that names no veiled column. -/
def Clear (c : Catalog) (veil : Veil) (m : Model) (v : Value) : Prop := ∀ p ∈ veil, ¬ c.Names m v p

def ClearMember (c : Catalog) (veil : Veil) (m : Model) (kv : String × Value) : Prop :=
  ∀ p ∈ veil, ¬ c.NamesMember m kv p

variable {c : Catalog} {veil : Veil} {m : Model} {db db' : Database} {key : String} {v : Value} {o : Object}
  {cond : Condition}

theorem clear_null : c.Clear veil m .null := by
  intro p _ hn
  cases hn

theorem clear_object_iff : c.Clear veil m (.object o) ↔ ∀ kv ∈ o, c.ClearMember veil m kv :=
  ⟨fun h _ hin p hp hn => h p hp (.member hin hn), fun h p hp => fun | .member hin hn => h _ hin p hp hn⟩

theorem clear_list_iff {items : List Value} :
    c.Clear veil m (.list items) ↔ ∀ item ∈ items, c.Clear veil m item :=
  ⟨fun h _ hin p hp hn => h p hp (.item hin hn), fun h p hp => fun | .item hin hn => h _ hin p hp hn⟩

theorem clear_asItems_iff : c.Clear veil m v ↔ ∀ item ∈ v.asItems, c.Clear veil m item := by
  cases v with
  | list items => exact clear_list_iff
  | null => exact iff_of_true clear_null (by simp [Value.asItems])
  | _ => exact List.forall_mem_singleton.symm

theorem clearMember_logical_iff (hk : key ∈ ["AND", "OR", "NOT"]) :
    c.ClearMember veil m (key, v) ↔ c.Clear veil m v := by
  refine ⟨fun h p hp hn => h p hp (.logical hk hn), fun h p hp hn => ?_⟩
  cases hn with
  | logical _ hn => exact h p hp hn
  | held hno | linked hno | column hno | part hno => exact hno hk

theorem clearMember_column_iff {column : Column} (hk : key ∉ ["AND", "OR", "NOT"]) (hl : m.link? key = none)
    (hc : m.column? key = some column) : c.ClearMember veil m (key, v) ↔ (m.name, column.name) ∉ veil := by
  refine ⟨fun h hin => h _ hin (.column hk hl hc), fun h p hp hn => ?_⟩
  cases hn with
  | logical hlog => exact hk hlog
  | held _ hl' => rw [hl] at hl'; cases hl'
  | linked _ hl' => rw [hl] at hl'; cases hl'
  | column _ _ hc' => rw [hc] at hc'; cases hc'; exact h hp
  | part _ _ hc' => rw [hc] at hc'; cases hc'

theorem clearMember_link_iff {l : Link} {target : Model} (hk : key ∉ ["AND", "OR", "NOT"]) (hl : m.link? key = some l)
    (ht : c.named l.target = .ok target) : c.ClearMember veil m (key, v) ↔
      (∀ p ∈ l.heldIn m.name, p ∉ veil) ∧ ∀ u ∈ l.filters v, c.Clear veil target u := by
  refine ⟨fun h => ⟨fun p hp hin => h p hin (.held hk hl hp), fun u hu p hin hn => h p hin (.linked hk hl ht hu hn)⟩,
    fun ⟨hheld, hbelow⟩ p hin hn => ?_⟩
  cases hn with
  | logical hlog => exact hk hlog
  | held _ hl' hp => rw [hl] at hl'; cases hl'; exact hheld p hp hin
  | linked _ hl' ht' hu hn =>
      rw [hl] at hl'
      cases hl'
      rw [ht] at ht'
      cases ht'
      exact hbelow _ hu p hin hn
  | column _ hl' => rw [hl] at hl'; cases hl'
  | part _ hl' => rw [hl] at hl'; cases hl'

/-- What two filters do not name is not named by both merged. -/
theorem conjunctive_clear : Guard.Conjunctive (c.Clear veil m) (c.ClearMember veil m) :=
  ⟨clear_object_iff, (clearMember_logical_iff (by simp)).trans clear_asItems_iff⟩

/-! ## Filters depend on what they name -/

theorem cellCondition_agrees (hk : key ∉ ["AND", "OR", "NOT"]) (hl : m.link? key = none)
    (hclear : c.ClearMember veil m (key, v)) (h : m.cellCondition key v = .ok cond) :
    cond.Agrees veil db db' m.name := by
  unfold Model.cellCondition at h
  split at h
  · rename_i column hc
    exact (Column.condition_about h).agrees fun hin => hclear _ hin (.column hk hl hc)
  · rename_i hc
    split at h
    · rename_i parts hparts
      obtain ⟨conds, hconds, rfl⟩ := map_ok_iff.mp h
      refine Condition.agrees_all fun cond hcond => ?_
      obtain ⟨part, hpart, heq⟩ := forall₂_partner (mapM_ok_forall₂ hconds).flip hcond
      exact (Column.equalTo_about heq).agrees fun hin => hclear _ hin (.part hk hl hc hparts hpart)
    · cases h

/-- Filters no larger than some value have one outcome for rows that are alike. -/
def AgreeUpTo (c : Catalog) (veil : Veil) (db db' : Database) (size : Nat) : Prop :=
  ∀ u, sizeOf u ≤ size → ∀ m cond, c.Clear veil m u → c.condition m u = .ok cond →
    cond.Agrees veil db db' m.name

theorem wordCondition_agrees {l : Link} {source word : String} {target : Model} (hdb : db.Alike veil db')
    (hheld : ∀ p ∈ l.heldIn source, p ∉ veil)
    (hv : ∀ cond, c.condition target v = .ok cond → cond.Agrees veil db db' l.target)
    (h : c.wordCondition l target word v = .ok cond) : cond.Agrees veil db db' source := by
  have hexists : l.exists_.Agrees veil db db' source := Condition.agrees_linked hdb hheld Condition.agrees_always
  unfold wordCondition at h
  split at h
  · obtain ⟨part, hpart, rfl⟩ := map_ok_iff.mp h
    exact Condition.agrees_linked hdb hheld (hv part hpart)
  · obtain ⟨part, hpart, rfl⟩ := map_ok_iff.mp h
    exact (Condition.agrees_linked hdb hheld (hv part hpart)).negation
  · obtain ⟨part, hpart, rfl⟩ := map_ok_iff.mp h
    exact (Condition.agrees_linked hdb hheld (hv part hpart).negation).negation
  · split at h
    · obtain rfl := pure_ok_iff.mp h
      exact hexists.negation
    · obtain ⟨part, hpart, rfl⟩ := map_ok_iff.mp h
      exact Condition.agrees_linked hdb hheld (hv part hpart)
  · split at h
    · obtain rfl := pure_ok_iff.mp h
      exact hexists
    · obtain ⟨part, hpart, rfl⟩ := map_ok_iff.mp h
      exact (Condition.agrees_linked hdb hheld (hv part hpart)).negation
  · cases h

theorem linkCondition_agrees {l : Link} (hdb : db.Alike veil db') (ih : c.AgreeUpTo veil db db' (sizeOf v))
    (hk : key ∉ ["AND", "OR", "NOT"]) (hl : m.link? key = some l) (hclear : c.ClearMember veil m (key, v))
    (h : c.linkCondition l v = .ok cond) : cond.Agrees veil db db' m.name := by
  obtain ⟨target, ht, hcases⟩ := bind_ok_iff.mp h
  have hheld : ∀ p ∈ l.heldIn m.name, p ∉ veil := fun p hp hin => hclear p hin (.held hk hl hp)
  have hbelow : ∀ u ∈ l.filters v, ∀ cond, c.condition target u = .ok cond →
      cond.Agrees veil db db' l.target := fun u hu cond hc =>
    named_name ht ▸ ih u (Link.sizeOf_filters hu) target cond
      (fun p hin hn => hclear p hin (.linked hk hl ht hu hn)) hc
  cases v with
  | object members =>
      simp only [Link.filters] at hbelow
      rw [linkCondition_object ht] at h
      split at h
      · rename_i hworded
        rw [if_pos hworded] at hbelow
        obtain ⟨conds, hconds, rfl⟩ := map_ok_iff.mp h
        refine Condition.agrees_all fun part hpart => ?_
        obtain ⟨kv, hkv, hword⟩ := forall₂_partner (linkConditions_ok_iff.mp hconds).flip hpart
        exact wordCondition_agrees hdb hheld (hbelow kv.2 (List.mem_map.mpr ⟨kv, hkv, rfl⟩)) hword
      · rename_i hplain
        rw [if_neg hplain] at hbelow
        obtain ⟨conds, hconds, rfl⟩ := map_ok_iff.mp h
        exact Condition.agrees_linked hdb hheld
          (hbelow _ List.mem_cons_self (.all conds) (map_ok_iff.mpr ⟨conds, hconds, rfl⟩))
  | null =>
      dsimp only at hcases
      split at hcases
      · cases hcases
      · obtain rfl := pure_ok_iff.mp hcases
        exact (Condition.agrees_linked hdb hheld Condition.agrees_always).negation
  | _ => cases hcases

theorem memberCondition_agrees (hdb : db.Alike veil db') (ih : c.AgreeUpTo veil db db' (sizeOf v))
    (hclear : c.ClearMember veil m (key, v)) (h : c.memberCondition m key v = .ok cond) :
    cond.Agrees veil db db' m.name := by
  by_cases hk : key ∈ ["AND", "OR", "NOT"]
  · have hvalue : c.Clear veil m v := (clearMember_logical_iff hk).mp hclear
    have hparts {conds : List Condition} (hconds : c.parts m v = .ok conds) :
        ∀ part ∈ conds, part.Agrees veil db db' m.name := by
      intro part hpart
      obtain ⟨item, hi, hc⟩ := forall₂_partner (parts_ok_iff.mp hconds).flip hpart
      exact ih item (Value.sizeOf_asItems hi) m part (clear_asItems_iff.mp hvalue item hi) hc
    simp only [List.mem_cons, List.not_mem_nil, or_false] at hk
    rcases hk with rfl | rfl | rfl
    · obtain ⟨conds, hconds, rfl⟩ := map_ok_iff.mp h
      exact Condition.agrees_all (hparts hconds)
    · obtain ⟨conds, hconds, rfl⟩ := map_ok_iff.mp h
      split
      · exact Condition.agrees_always
      · exact Condition.agrees_any (hparts hconds)
    · obtain ⟨conds, hconds, rfl⟩ := map_ok_iff.mp h
      refine Condition.agrees_all fun part hpart => ?_
      obtain ⟨denied, hdenied, rfl⟩ := List.mem_map.mp hpart
      exact (hparts hconds denied hdenied).negation
  · rw [memberCondition_name hk] at h
    split at h
    · rename_i l hl
      exact linkCondition_agrees hdb ih hk hl hclear h
    · rename_i hl
      exact cellCondition_agrees hk hl hclear h

/-- A filter that names no veiled column has one outcome for rows that are alike, by induction on its size. -/
theorem condition_agrees (hdb : db.Alike veil db') : ∀ {v : Value} {m : Model} {cond : Condition},
    c.Clear veil m v → c.condition m v = .ok cond → cond.Agrees veil db db' m.name := by
  intro v
  induction v using Value.induct with
  | step v ih =>
      intro m cond hclear h
      cases v with
      | object members =>
          obtain ⟨conds, hconds, rfl⟩ := map_ok_iff.mp h
          refine Condition.agrees_all fun part hpart => ?_
          obtain ⟨⟨key, u⟩, hin, hmember⟩ := forall₂_partner (conditions_ok_iff.mp hconds).flip hpart
          have hsmaller : c.AgreeUpTo veil db db' (sizeOf u) := fun w hw m cond =>
            ih w (Nat.lt_of_le_of_lt hw (Value.sizeOf_member hin))
          exact memberCondition_agrees hdb hsmaller (clear_object_iff.mp hclear _ hin) hmember
      | _ =>
          simp only [condition] at h
          split at h
          · cases h
          · obtain rfl := pure_ok_iff.mp h
            exact Condition.agrees_always

/-! ## What is made of filters -/

theorem logical_of_isLogical (h : Guard.isLogical key = true) : key ∈ ["AND", "OR", "NOT"] := by
  simp only [Guard.isLogical, Bool.or_eq_true, beq_iff_eq] at h
  rcases h with rfl | rfl <;> simp

theorem clear_unwrap (h : c.Clear veil m (.object o)) : c.Clear veil m (Guard.unwrap o) := by
  rcases Guard.unwrap_cases o with hu | ⟨key, condition, rfl, hlog, hu⟩
  · rwa [hu]
  · rw [hu]
    have hlist := (clearMember_logical_iff (logical_of_isLogical hlog)).mp
      (clear_object_iff.mp h _ List.mem_cons_self)
    exact clear_list_iff.mp hlist condition List.mem_cons_self

/-- What is left of a tidy filter that is freed of a parent and cleaned names nothing new, by induction on the
filter. Below keys that do not combine it stays as it was. -/
theorem clear_freed {parent : String} {v : Value} (ht : Guard.Tidy v) : ∀ {u w : Value}, c.Clear veil m v →
    Guard.withoutParent parent v = some u → Guard.clean u = some w → c.Clear veil m w := by
  induction ht with
  | @scalar v hn hl ho =>
      intro u w hclear hu hw
      cases v with
      | null => exact absurd rfl hn
      | list => cases hl
      | object => cases ho
      | _ =>
          obtain rfl := Option.some.inj hu
          obtain rfl := Option.some.inj hw
          exact hclear
  | @list items hne _ ih =>
      intro u w hclear hu hw
      rw [Guard.withoutParent] at hu
      split at hu
      · cases hu
      · obtain rfl := Option.some.inj hu
        obtain ⟨_, rfl⟩ := Guard.clean_list_iff.mp hw
        refine clear_list_iff.mpr fun w hw => ?_
        obtain ⟨u, hu, hclean⟩ := Guard.mem_cleanItems.mp hw
        obtain ⟨item, hi, hleft⟩ := Guard.mem_withoutParentItems hu
        exact ih item hi (clear_list_iff.mp hclear item hi) hleft hclean
  | @object members hne hunwrap htidy ih =>
      intro u w hclear hu hw
      -- a logical key that is left has a list, of which the claim holds by induction
      have hlogical {key : String} {x y : Value} (hin : (key, x) ∈ Guard.withoutParentMembers parent members)
          (hlog : Guard.isLogical key = true) (hy : Guard.clean x = some y) : c.Clear veil m y := by
        obtain ⟨v, hv, hleft⟩ := Guard.mem_withoutParentMembers hin hlog
        have hvn : v ≠ .null := by rintro rfl; cases hleft
        exact ih key v hv hvn ((clearMember_logical_iff (logical_of_isLogical hlog)).mp
          (clear_object_iff.mp hclear _ hv)) hleft hy
      have hu : u = Guard.unwrap (Guard.withoutParentMembers parent members) := by
        rw [Guard.withoutParent] at hu
        split at hu
        · cases hu
        · exact (Option.some.inj hu).symm
      rcases Guard.unwrap_cases (Guard.withoutParentMembers parent members) with he | ⟨key, condition, hone, hlog, he⟩
      · rw [hu, he] at hw
        obtain ⟨_, _, rfl⟩ := Guard.clean_object_iff.mp hw
        refine clear_unwrap (clear_object_iff.mpr fun kv hy => ?_)
        obtain ⟨key, y⟩ := kv
        obtain ⟨x, hx, hclean⟩ := Guard.mem_cleanMembers hy
        cases hlog : Guard.isLogical key with
        | true =>
            refine (clearMember_logical_iff (logical_of_isLogical hlog)).mpr ?_
            rcases hclean with ⟨_, rfl⟩ | hclean
            · exact clear_null
            · exact hlogical hx hlog hclean
        | false =>
            have hin := Guard.mem_of_mem_withoutParentMembers hx hlog
            have hsame : y = x := by
              rcases hclean with ⟨rfl, rfl⟩ | hclean
              · rfl
              · have hxn : x ≠ .null := by rintro rfl; cases hclean
                exact (Option.some.inj ((htidy key x hin hxn).clean_eq.symm.trans hclean)).symm
            rw [hsame]
            exact clear_object_iff.mp hclear _ hin
      · rw [hu, he] at hw
        have hin : (key, Value.list [condition]) ∈ Guard.withoutParentMembers parent members := by
          rw [hone]
          exact List.mem_cons_self
        have hlist : Guard.clean (.list [condition]) = some (.list [w]) := by
          rw [Guard.clean_list_iff, Guard.cleanItems, hw]
          exact ⟨List.cons_ne_nil _ _, rfl⟩
        exact clear_list_iff.mp (hlogical hin hlog hlist) w List.mem_cons_self

end Catalog

end RecordGraph
