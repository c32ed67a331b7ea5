import RecordGraph.Proofs.Access.Cleaning

/-!
# Decisions do not widen filters

What is left of a cleanable filter selects no other rows than the filter. A decision made from it is
no wider than the rule's answer.
-/

namespace RecordGraph

namespace Catalog

variable {c : Catalog} {fit : Fit} {m : Model} {v w : Value} {a b : Condition} {as bs : List Condition}

theorem condition_absent (h : v.isObject = false) :
    c.condition m v = if v.isPresent then throw .illFormed else pure .always := by
  cases v with
  | object => cases h
  | _ => simp only [condition]

theorem condition_absent_ok (h : v.isObject = false) (hc : c.condition m v = .ok a) :
    v.isPresent = false ∧ a = .always := by
  rw [condition_absent h] at hc
  cases hp : v.isPresent with
  | true => simp [hp, throw_ok_iff] at hc
  | false =>
      simp only [hp, Bool.false_eq_true, ↓reduceIte, pure_ok_iff] at hc
      exact ⟨rfl, hc.symm⟩

theorem parts_of_logical {key : String} (h : Guard.isLogical key = true)
    (hc : c.memberCondition m key v = .ok a) : ∃ as, c.parts m v = .ok as := by
  have hkey : key = "AND" ∨ key = "OR" := by
    simpa [Guard.isLogical] using h
  rcases hkey with rfl | rfl <;> exact (map_ok_iff.mp hc).imp fun _ h => h.1

/-- What is left of a filter that can be read is a filter, or nothing that counts. -/
theorem clean_readable (hc : c.condition m v = .ok a) (hw : Guard.clean v = some w) :
    w.isObject = true ∨ w.isList = false ∧ w.isPresent = false := by
  induction v using Value.induct generalizing a w with
  | step v ih =>
      cases v with
      | list items =>
          have hp := (condition_absent_ok rfl hc).1
          cases items with
          | nil => simp [Guard.clean, Guard.cleanItems] at hw
          | cons => simp [Value.isPresent] at hp
      | object members =>
          obtain ⟨_, _, rfl⟩ := Guard.clean_object_iff.mp hw
          rcases Guard.unwrap_cases (Guard.cleanMembers members) with he | ⟨key, u, hm, hlog, he⟩
          · left; rw [he]; rfl
          · rw [he]
            have hin : (key, Value.list [u]) ∈ Guard.cleanMembers members := by simp [hm]
            obtain ⟨v', hv', hor⟩ := Guard.mem_cleanMembers hin
            have hclean : Guard.clean v' = some (.list [u]) := by
              rcases hor with ⟨_, hno⟩ | h
              · cases hno
              · exact h
            obtain ⟨as, has, _⟩ := map_ok_iff.mp (by simpa only [condition] using hc)
            obtain ⟨cond, _, hcond⟩ := forall₂_partner (conditions_ok_iff.mp has) hv'
            obtain ⟨parts, hparts⟩ := parts_of_logical hlog hcond
            have hread := parts_ok_iff.mp hparts
            cases hl : v'.isList with
            | false =>
                -- a value on its own is read itself, and does not come to a list
                have hmem : v' ∈ v'.asItems := by
                  cases v' with
                  | null => simp [Guard.clean] at hclean
                  | list => cases hl
                  | _ => exact List.mem_singleton.mpr rfl
                obtain ⟨cond', _, hcond'⟩ := forall₂_partner hread hmem
                rcases ih v' (Value.sizeOf_member hv') hcond' hclean with h | ⟨h, _⟩ <;> cases h
            | true =>
                cases v' with
                | list items =>
                    have hitems := (Guard.clean_list_iff.mp hclean).2
                    have hu : u ∈ Guard.cleanItems items := by
                      injection hitems with hitems; simp [← hitems]
                    obtain ⟨item, hitem, hcu⟩ := Guard.mem_cleanItems.mp hu
                    obtain ⟨cond', _, hcond'⟩ := forall₂_partner hread hitem
                    have hlt := Nat.lt_trans (Value.sizeOf_item hitem) (Value.sizeOf_member hv')
                    exact ih item hlt hcond' hcu
                | _ => cases hl
      | null => simp [Guard.clean] at hw
      | _ =>
          have hp := (condition_absent_ok rfl hc).1
          simp only [Guard.clean, Option.some.injEq] at hw
          subst hw
          exact .inr ⟨rfl, hp⟩

/-- A tree that is unwrapped keeps its outcome. -/
theorem condition_unwrap {tree : Object} (h : c.condition m (Guard.unwrap tree) = .ok b) :
    ∃ bs, c.conditions m tree = .ok bs ∧ Condition.Refines .exact (.all bs) b := by
  rcases Guard.unwrap_cases tree with he | ⟨key, u, rfl, hlog, he⟩
  · rw [he, condition, map_ok_iff] at h
    obtain ⟨bs, hbs, rfl⟩ := h
    exact ⟨bs, hbs, .refl _⟩
  · rw [he] at h
    have hparts : c.parts m (.list [u]) = .ok [b] := parts_ok_iff.mpr (.cons h .nil)
    have hkey : key = "AND" ∨ key = "OR" := by simpa [Guard.isLogical] using hlog
    rcases hkey with rfl | rfl
    · refine ⟨[.all [b]], conditions_ok_iff.mpr (.cons ?_ .nil), fun db row => ?_⟩
      · simp only [memberCondition, hparts]
        rfl
      · simp [Condition.eval, Condition.evalAll, Truth.and_holds]
    · refine ⟨[.any [b]], conditions_ok_iff.mpr (.cons ?_ .nil), fun db row => ?_⟩
      · simp only [memberCondition, hparts]
        rfl
      · simp [Condition.eval, Condition.evalAll, Condition.evalAny, Truth.and_holds, Truth.or_fails]

/-- What cleaning leaves of a value that is cleanable says enough. -/
def Narrows (c : Catalog) (v : Value) : Prop :=
  ∀ fit m a, c.Cleanable fit m v → c.condition m v = .ok a → (Guard.clean v = none → a.Idle) ∧
    ∀ w b, Guard.clean v = some w → c.condition m w = .ok b → a.Refines fit b

/-! ## Lists of filters -/

theorem items_kept {items : List Value} (hv : ∀ item ∈ items, c.Narrows item)
    (hcl : ∀ item ∈ items, c.Cleanable fit m item)
    (ha : List.Forall₂ (fun item cond => c.condition m item = .ok cond) items as)
    (hb : List.Forall₂ (fun item cond => c.condition m item = .ok cond) (Guard.cleanItems items) bs) :
    Condition.Kept fit as bs ∧
      ((∀ item ∈ items, Guard.clean item ≠ none) → List.Forall₂ (Condition.Refines fit) as bs) := by
  induction ha generalizing bs with
  | nil =>
      cases hb
      exact ⟨.nil, fun _ => .nil⟩
  | @cons item a items as ha _ ih =>
      have hrest {bs : List Condition} := @ih bs (fun item hm => hv item (List.mem_cons_of_mem _ hm))
        fun item hm => hcl item (List.mem_cons_of_mem _ hm)
      obtain ⟨hnone, hsome⟩ := hv item (by simp) fit m a (hcl item (by simp)) ha
      rw [Guard.cleanItems] at hb
      cases hc : Guard.clean item with
      | none =>
          rw [hc] at hb
          exact ⟨.drop (hnone hc) (hrest hb).1, fun hall => absurd hc (hall item (by simp))⟩
      | some w =>
          rw [hc] at hb
          cases hb with
          | cons hb hbs =>
              have hr := hsome w _ hc hb
              exact ⟨.keep hr (hrest hbs).1, fun hall =>
                .cons hr ((hrest hbs).2 fun item hm => hall item (List.mem_cons_of_mem _ hm))⟩

/-- The filters under a logical key, given as a list or as one on its own. -/
theorem parts_kept (hv : ∀ item ∈ v.asItems, c.Narrows item)
    (hcl : ∀ item ∈ v.asItems, c.Cleanable fit m item) (hw : Guard.clean v = some w)
    (ha : c.parts m v = .ok as) (hb : c.parts m w = .ok bs) :
    Condition.Kept fit as bs ∧ (Guard.Lossless v → List.Forall₂ (Condition.Refines fit) as bs) ∧
      as ≠ [] ∧ bs ≠ [] := by
  rw [parts_ok_iff] at ha hb
  cases hl : v.isList with
  | true =>
      cases v with
      | list items =>
          obtain ⟨hne, rfl⟩ := Guard.clean_list_iff.mp hw
          obtain ⟨hk, hf⟩ := items_kept hv hcl ha hb
          refine ⟨hk, hf, ?_, ?_⟩
          · rintro rfl
            cases ha
            exact hne rfl
          · rintro rfl
            exact hne (List.forall₂_nil_right_iff.mp hb)
      | _ => cases hl
  | false =>
      have hself {v : Value} (hl : v.isList = false) (hn : v ≠ .null) : v.asItems = [v] := by
        cases v with
        | list => cases hl
        | null => exact absurd rfl hn
        | _ => rfl
      have hvn : v ≠ .null := by
        rintro rfl
        cases hw
      rw [hself hl hvn] at ha hv hcl
      cases ha with
      | cons ha has =>
          cases has
          have hwl : w.isList = false := by
            rcases clean_readable ha hw with h | h
            · cases w <;> first | rfl | cases h
            · exact h.1
          rw [hself hwl (Guard.clean_ne_null hw)] at hb
          cases hb with
          | cons hb hbs =>
              cases hbs
              have hr := (hv v (by simp) fit m _ (hcl v (by simp)) ha).2 w _ hw hb
              exact ⟨.keep hr .nil, fun _ => .cons hr .nil, by simp, by simp⟩

/-! ## Links -/

theorem wordCondition_ok {l : Link} {target : Model} {word : String} (hn : v ≠ .null)
    (h : c.wordCondition l target word v = .ok a) :
    ∃ p, c.condition target v = .ok p ∧ a = l.worded word p := by
  have hnull : v.isNull = false := by
    cases v with
    | null => exact absurd rfl hn
    | _ => rfl
  unfold wordCondition at h
  split at h
  all_goals
    first
    | simp [throw_ok_iff] at h
    | simp only [hnull, Bool.false_eq_true, ↓reduceIte, map_ok_iff] at h
      obtain ⟨p, hp, rfl⟩ := h
      exact ⟨p, hp, by simp [Link.worded]⟩

theorem wordCondition_word {l : Link} {target : Model} {word : String}
    (h : c.wordCondition l target word v = .ok a) : word ∈ l.words := by
  unfold wordCondition at h
  split at h
  all_goals
    first
    | simp [throw_ok_iff] at h
    | rename_i hlist
      simp [Link.words, hlist, Link.quantifiers, Link.assertions]

theorem worded_refines {l : Link} {word : String} {p q : Condition} (h : p.Refines .exact q) :
    (l.worded word p).Refines fit (l.worded word q) := by
  unfold Link.worded
  split
  · exact h.of_exact.linked
  · split
    · exact h.linked.negation
    · exact h.negation.linked.negation

theorem word_refines {l : Link} {target : Model} {word : String} (h : c.CleanableWord fit l target word v)
    (hv : c.Narrows v) (hw : Guard.clean v = some w) (ha : c.wordCondition l target word v = .ok a)
    (hb : c.wordCondition l target word w = .ok b) : a.Refines fit b := by
  have hvn : v ≠ .null := by
    rintro rfl
    cases hw
  obtain ⟨p, hp, rfl⟩ := wordCondition_ok hvn ha
  obtain ⟨q, hq, rfl⟩ := wordCondition_ok (Guard.clean_ne_null hw) hb
  cases h with
  | null => cases hw
  | dropped hd => rw [hw] at hd; cases hd
  | holds _ hword hcl =>
      have hr := (hv fit target p hcl hp).2 w q hw hq
      simp only [Link.worded, hword, ↓reduceIte]
      exact hr.linked
  | denied _ hcl => exact worded_refines ((hv .exact target p hcl hp).2 w q hw hq)

theorem word_not_logical {l : Link} {word : String} (h : word ∈ l.words) :
    Guard.isLogical word = false := by
  unfold Link.words at h
  split at h <;> simp [Link.quantifiers, Link.assertions] at h <;>
    rcases h with rfl | rfl | rfl <;> decide

/-- The words that are left are not unwrapped, and are words still. -/
theorem clean_words {l : Link} {target : Model} {members : Object}
    (h : c.linkConditions l target members = .ok as) (hw : Guard.clean (.object members) = some w) :
    w = .object (Guard.cleanMembers members) ∧ l.isWorded (Guard.cleanMembers members) = true := by
  obtain ⟨hne, _, rfl⟩ := Guard.clean_object_iff.mp hw
  have hwords : ∀ kv ∈ Guard.cleanMembers members, kv.1 ∈ l.words := by
    intro kv hkv
    obtain ⟨u, hu, _⟩ := Guard.mem_cleanMembers (w := kv.2) hkv
    obtain ⟨cond, _, hcond⟩ := forall₂_partner (linkConditions_ok_iff.mp h) hu
    exact wordCondition_word hcond
  refine ⟨Guard.unwrap_of_not_logical fun kv hkv => word_not_logical (hwords kv hkv), ?_⟩
  cases hm : Guard.cleanMembers members with
  | nil => exact absurd hm hne
  | cons kv rest =>
      rw [hm] at hwords
      simp [Link.isWorded, hwords kv (by simp)]

theorem linkCondition_object {l : Link} {target : Model} {members : Object}
    (ht : c.named l.target = .ok target) : c.linkCondition l (.object members) =
      if l.isWorded members then Condition.all <$> c.linkConditions l target members
      else (fun cs => .linked l (.all cs)) <$> c.conditions target members := by
  rw [linkCondition, ht]
  rfl

/-- The filter of a link is an object or null. -/
theorem linkCondition_ok_object {l : Link} (hn : v ≠ .null) (h : c.linkCondition l v = .ok a) :
    ∃ members, v = .object members := by
  obtain ⟨target, _, h⟩ := bind_ok_iff.mp h
  cases v with
  | object members => exact ⟨members, rfl⟩
  | null => exact absurd rfl hn
  | _ => simp [throw_ok_iff] at h

/-! ## Members -/

theorem member_refines {key : String} (h : c.CleanableMember fit m key v) (hself : c.Narrows v)
    (hitems : ∀ item ∈ v.asItems, c.Narrows item)
    (hinner : ∀ members, v = .object members → ∀ word u, (word, u) ∈ members → c.Narrows u)
    (hw : Guard.clean v = some w) (ha : c.memberCondition m key v = .ok a)
    (hb : c.memberCondition m key w = .ok b) : a.Refines fit b := by
  cases h with
  | null => cases hw
  | dropped hd => rw [hw] at hd; cases hd
  | conjunction _ hcl =>
      obtain ⟨as, has, rfl⟩ := map_ok_iff.mp ha
      obtain ⟨bs, hbs, rfl⟩ := map_ok_iff.mp hb
      exact (parts_kept hitems hcl hw has hbs).1.all
  | alternative _ hcl hall =>
      obtain ⟨as, has, rfl⟩ := map_ok_iff.mp ha
      obtain ⟨bs, hbs, rfl⟩ := map_ok_iff.mp hb
      obtain ⟨hk, hf, hna, hnb⟩ := parts_kept hitems hcl hw has hbs
      simp only [List.isEmpty_iff, hna, hnb, ↓reduceIte]
      cases fit with
      | within => exact hk.any
      | exact => exact Condition.refines_any (hf (hall rfl))
  | denial _ hcl hall =>
      obtain ⟨as, has, rfl⟩ := map_ok_iff.mp ha
      obtain ⟨bs, hbs, rfl⟩ := map_ok_iff.mp hb
      exact Condition.refines_denied ((parts_kept hitems hcl hw has hbs).2.1 hall)
  | @linked _ _ _ l target members _ hn hl ht hword hcl ho =>
      simp only [memberCondition_name hn, hl] at ha hb
      obtain ⟨o, rfl⟩ := linkCondition_ok_object (Guard.clean_ne_null hw) hb
      rw [linkCondition_object ht, hword] at ha
      rw [linkCondition_object ht, ho o hw] at hb
      obtain ⟨as, has, rfl⟩ := map_ok_iff.mp ha
      obtain ⟨bs, hbs, rfl⟩ := map_ok_iff.mp hb
      have hobject {o : Object} {cs : List Condition} (h : c.conditions target o = .ok cs) :
          c.condition target (.object o) = .ok (.all cs) := by
        rw [condition, h]
        rfl
      exact ((hself fit target _ hcl (hobject has)).2 _ _ hw (hobject hbs)).linked
  | @worded _ _ _ l target members _ hn hl ht hword hcl =>
      simp only [memberCondition_name hn, hl] at ha hb
      rw [linkCondition_object ht, hword] at ha
      obtain ⟨as, has, rfl⟩ := map_ok_iff.mp ha
      obtain ⟨rfl, hworded⟩ := clean_words has hw
      rw [linkCondition_object ht, hworded] at hb
      obtain ⟨bs, hbs, rfl⟩ := map_ok_iff.mp hb
      refine (Guard.kept_cleanMembers (fun word u hm hne => ⟨fun hnone => ?_, fun w a b hw ha hb => ?_⟩)
        (linkConditions_ok_iff.mp has) (linkConditions_ok_iff.mp hbs)).all
      · cases hcl word u hm with
        | null => exact absurd rfl hne
        | dropped _ hcond hidle => exact ⟨_, hcond, hidle⟩
        | holds hk | denied hk => exact absurd hnone hk
      · exact word_refines (hcl word u hm) (hinner _ rfl word u hm) hw ha hb
  | column hn hl hcol hcl =>
      simp only [memberCondition_name hn, hl, Model.cellCondition, hcol] at ha hb
      exact (hcl.refines hw ha hb).of_exact
  | key hn hl hcol hs =>
      rw [hw] at hs; cases hs
      rw [ha] at hb; cases hb
      exact .refl _

/-! ## Filters -/

/-- Every cleanable filter is narrowed at most, by induction over the filters inside it. -/
theorem narrows (v : Value) : c.Narrows v := by
  have idle_always : Condition.Idle .always := Condition.idle_all fun _ h => by cases h
  induction v using Value.induct with
  | step v ih =>
      intro fit m a hcl ha
      cases hcl with
      | absent ho =>
          obtain ⟨hp, rfl⟩ := condition_absent_ok ho ha
          refine ⟨fun _ => idle_always, fun w b hw hb => ?_⟩
          have hwv : w = v := by
            cases v with
            | object => cases ho
            | null => cases hw
            | list items =>
                cases items with
                | nil => simp [Guard.clean, Guard.cleanItems] at hw
                | cons => simp [Value.isPresent] at hp
            | _ => cases hw; rfl
          subst hwv
          rw [ha] at hb
          cases hb
          exact .refl _
      | object hm =>
          rename_i members
          obtain ⟨as, has, rfl⟩ := map_ok_iff.mp (by simpa only [condition] using ha)
          have hkept {bs : List Condition} (hbs : c.conditions m (Guard.cleanMembers members) = .ok bs) :
              Condition.Kept fit as bs := by
            refine Guard.kept_cleanMembers (fun key u hin hne => ⟨fun hnone => ?_, fun w a b hw ha hb => ?_⟩)
              (conditions_ok_iff.mp has) (conditions_ok_iff.mp hbs)
            · cases hm key u hin with
              | null => exact absurd rfl hne
              | dropped _ hcond hidle => exact ⟨_, hcond, hidle⟩
              | conjunction hk | alternative hk | denial hk | linked hk | worded hk => exact absurd hnone hk
              | column _ _ _ h =>
                  cases h with
                  | same h => rw [hnone] at h; cases h
                  | operators hk => exact absurd hnone hk
              | key _ _ _ h => rw [hnone] at h; cases h
            · have hlt := Value.sizeOf_member hin
              refine member_refines (hm key u hin) (ih u hlt) (fun item hi => ?_) (fun inner he word x hx => ?_)
                hw ha hb
              · exact ih item (Nat.lt_of_le_of_lt (Value.sizeOf_asItems hi) hlt)
              · subst he
                exact ih x (Nat.lt_trans (Value.sizeOf_member hx) hlt)
          constructor
          · intro hnone
            obtain ⟨b, hb, hidle⟩ : ∃ b, c.condition m (Guard.unwrap (Guard.cleanMembers members)) = .ok b ∧
                b.Idle := by
              by_cases hempty : Guard.cleanMembers members = []
              · rw [hempty]
                exact ⟨_, rfl, idle_always⟩
              · have hnull : Guard.unwrap (Guard.cleanMembers members) = .null := by
                  by_contra hne
                  rw [Guard.clean_object_iff.mpr ⟨hempty, hne, rfl⟩] at hnone
                  cases hnone
                rw [hnull]
                exact ⟨_, rfl, idle_always⟩
            obtain ⟨bs, hbs, hr⟩ := condition_unwrap hb
            exact ((hkept hbs).all.trans hr.of_exact).idle hidle
          · intro w b hw hb
            obtain ⟨_, _, rfl⟩ := Guard.clean_object_iff.mp hw
            obtain ⟨bs, hbs, hr⟩ := condition_unwrap hb
            exact (hkept hbs).all.trans hr.of_exact

/-- A row that satisfies the filter of a decision satisfies the answer that it was made from. -/
theorem satisfies_of_decision {f : Object} (hcl : c.Cleanable .within m (.object f))
    (hf : c.condition m (.object f) = .ok a) {db : Database} {row : Row}
    (hs : c.Satisfies m db row (.object (Decision.ofAnswer (.object f)).filter)) :
    c.Satisfies m db row (.object f) := by
  obtain ⟨hnone, hsome⟩ := narrows (.object f) .within m a hcl hf
  refine ⟨a, hf, Condition.selects_iff.mpr ?_⟩
  cases hw : Guard.clean (.object f) with
  | none => exact hnone hw db row
  | some w =>
      cases hobj : w.isObject with
      | true =>
          cases w with
          | object o =>
              have hfilter : (Decision.ofAnswer (.object f)).filter = o := by
                unfold Decision.ofAnswer
                cases o <;> simp [hw, Decision.filter]
              rw [hfilter] at hs
              obtain ⟨b, hb, hsel⟩ := hs
              exact hsome _ _ hw hb db row (Condition.selects_iff.mp hsel)
          | _ => cases hobj
      | false =>
          have hp : w.isPresent = false := by
            rcases clean_readable hf hw with h | h
            · rw [hobj] at h; cases h
            · exact h.2
          have hb : c.condition m w = .ok .always := by
            rw [condition_absent hobj, hp]
            rfl
          exact hsome _ _ hw hb db row rfl

end Catalog

/-- The decision that a rule's answer is turned into is no wider than the answer, if cleaning leaves
out of it only what says nothing. A condition that is left out whole widens the decision unless it
holds of every row. -/
theorem Decision.ofAnswer_within (c : Catalog) (m : Model) :
    (∀ f cond, c.condition m (.object f) = .ok cond → c.Cleanable .within m (.object f) → ∀ db row,
      c.Satisfies m db row (.object (ofAnswer (.object f)).filter) → c.Satisfies m db row (.object f)) ∧
    ∀ key v cond, v ≠ .null → Guard.clean v = none → c.memberCondition m key v = .ok cond →
      ((∀ db row, c.Satisfies m db row (.object (ofAnswer (.object [(key, v)])).filter) →
        c.Satisfies m db row (.object [(key, v)])) ↔ cond.Idle) := by
  constructor
  · intro f cond hf hcl db row hs
    exact Catalog.satisfies_of_decision hcl hf hs
  · intro key v cond hn hv hcond
    have hleft : Guard.clean (.object [(key, v)]) = none := by
      rw [Guard.clean, Guard.cleanMembers_cons hn, hv]
      rfl
    have hall : (ofAnswer (.object [(key, v)])).filter = [] := by
      simp [ofAnswer, hleft, Decision.filter]
    have hmember (db : Database) (row : Row) :
        c.Satisfies m db row (.object [(key, v)]) ↔ cond.eval db row = .holds := by
      rw [Catalog.satisfies_object_iff, List.forall_mem_singleton, ← Condition.selects_iff]
      constructor
      · rintro ⟨cond', hcond', hs⟩
        rw [hcond] at hcond'
        cases hcond'
        exact hs
      · exact fun hs => ⟨cond, hcond, hs⟩
    simp only [hall, hmember]
    constructor
    · exact fun h db row => h db row Catalog.satisfies_empty
    · exact fun h db row _ => h db row

/-! Items, of which rules answer with a list of keys. -/

def itemModel : Model :=
  { name := "Item", table := "items", columns := [{ name := "id", kind := .integer, isKey := true }] }

def itemCatalog : Catalog := ⟨[("Item", itemModel)]⟩

/-- One item, by an alternative and an empty list of conditions. -/
def oneItem : Object := [("AND", .list []), ("OR", .list [.object [("id", .int 1)]])]

theorem oneItem_cleanable : itemCatalog.Cleanable .within itemModel (.object oneItem) := by
  refine .object fun key v hm => ?_
  simp only [oneItem, List.mem_cons, List.not_mem_nil, or_false, Prod.mk.injEq] at hm
  rcases hm with ⟨rfl, rfl⟩ | ⟨rfl, rfl⟩
  · exact .dropped rfl rfl fun _ _ => rfl
  · refine .alternative (by simp [Guard.clean, Guard.cleanItems, Guard.cleanMembers, Guard.unwrap])
      (fun item hi => ?_) (fun h => by cases h)
    cases List.mem_singleton.mp hi
    refine .object fun key v hm => ?_
    cases List.mem_singleton.mp hm
    exact .column (by decide) rfl rfl (.same rfl)

/-- The decision is for the one item, and the empty list says nothing. -/
theorem oneItem_within :
    (Decision.ofAnswer (.object oneItem)).filter = [("id", .int 1)] ∧
    itemCatalog.Cleanable .within itemModel (.object oneItem) ∧
    itemCatalog.Satisfies itemModel {} [("id", .integer 1)] (.object oneItem) ∧
    itemCatalog.Satisfies itemModel {} [("id", .integer 2)] (.object [("AND", .list [])]) := by
  have h := Decision.ofAnswer_within itemCatalog itemModel
  refine ⟨rfl, oneItem_cleanable, ?_, ?_⟩
  · exact h.1 oneItem _ rfl oneItem_cleanable _ _ ⟨_, rfl, rfl⟩
  · exact (h.2 "AND" (.list []) _ (by simp) rfl rfl).mpr (fun _ _ => rfl) _ _ ⟨_, rfl, rfl⟩

/-- An answer that admits no item at all is turned into no restriction. -/
theorem emptyMembership_widened :
    itemCatalog.Satisfies itemModel {} [("id", .integer 1)]
      (.object (Decision.ofAnswer (.object [("id", .object [("in", .list [])])])).filter) ∧
    ¬ itemCatalog.Satisfies itemModel {} [("id", .integer 1)]
      (.object [("id", .object [("in", .list [])])]) := by
  refine ⟨Catalog.satisfies_empty, ?_⟩
  rintro ⟨cond, hcond, hs⟩
  have hc : itemCatalog.condition itemModel (.object [("id", .object [("in", .list [])])]) =
      .ok (.all [.all [.among "id" []]]) := rfl
  rw [hc] at hcond
  cases hcond
  cases hs

end RecordGraph
