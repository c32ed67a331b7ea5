import Mathlib
import RecordGraph.Proofs.Access.Narrowing
import RecordGraph.Proofs.Relational.Finding

/-!
# Filters of included lists

The entry of a list carries the filter of its target. Conditions that are combined by logic are
carried along where they stand in lists; a single condition under a logical key is lost, and then the
entry selects the same rows only if the rest of the filter implies it.
-/

namespace RecordGraph

namespace Guard

/-- Whether a member of a filter is carried along: under a logical key only a list is. -/
def isListed (kv : String × Value) : Bool := !isLogical kv.1 || kv.2.isList

/-- A filter without the members that combine by logic but are no lists. -/
def listed (filter : Object) : Object := filter.filter isListed

variable {parent : String}

theorem mem_withoutParentItems {items : List Value} {w : Value} (h : w ∈ withoutParentItems parent items) :
    ∃ v ∈ items, withoutParent parent v = some w := by
  induction items with
  | nil => simp [withoutParentItems] at h
  | cons v vs ih =>
      have hrest (h : w ∈ withoutParentItems parent vs) : ∃ u ∈ v :: vs, withoutParent parent u = some w := by
        obtain ⟨u, hu, hw⟩ := ih h
        exact ⟨u, List.mem_cons_of_mem _ hu, hw⟩
      rw [withoutParentItems] at h
      cases hv : withoutParent parent v with
      | none => exact hrest (by simpa [hv] using h)
      | some u =>
          rw [hv] at h
          rcases List.mem_cons.mp h with rfl | h
          · exact ⟨v, by simp, hv⟩
          · exact hrest h

/-- What stands under a logical key that is left is left of a value under that key. -/
theorem mem_withoutParentMembers {members : Object} {key : String} {w : Value}
    (h : (key, w) ∈ withoutParentMembers parent members) (hlog : isLogical key = true) :
    ∃ v, (key, v) ∈ members ∧ withoutParent parent v = some w := by
  induction members with
  | nil => simp [withoutParentMembers] at h
  | cons kv rest ih =>
      obtain ⟨k, v⟩ := kv
      have hrest (h : (key, w) ∈ withoutParentMembers parent rest) :
          ∃ u, (key, u) ∈ (k, v) :: rest ∧ withoutParent parent u = some w := by
        obtain ⟨u, hu, hw⟩ := ih h
        exact ⟨u, List.mem_cons_of_mem _ hu, hw⟩
      rw [withoutParentMembers] at h
      split at h
      · exact hrest h
      · split at h
        · split at h
          · rename_i hv
            rcases List.mem_cons.mp h with he | h
            · cases he
              exact ⟨v, by simp, hv⟩
            · exact hrest h
          · exact hrest h
        · rename_i hk
          rcases List.mem_cons.mp h with he | h
          · cases he
            exact absurd hlog hk
          · exact hrest h

/-- A member that is left is as it was, unless its key is logical. -/
theorem mem_of_mem_withoutParentMembers {members : Object} {key : String} {w : Value}
    (h : (key, w) ∈ withoutParentMembers parent members) (hlog : isLogical key = false) :
    (key, w) ∈ members := by
  induction members with
  | nil => simp [withoutParentMembers] at h
  | cons kv rest ih =>
      obtain ⟨k, v⟩ := kv
      rw [withoutParentMembers] at h
      split at h
      · exact List.mem_cons_of_mem _ (ih h)
      · split at h
        · rename_i hk
          split at h
          · rcases List.mem_cons.mp h with he | h
            · cases he
              rw [hk] at hlog
              cases hlog
            · exact List.mem_cons_of_mem _ (ih h)
          · exact List.mem_cons_of_mem _ (ih h)
        · rcases List.mem_cons.mp h with he | h
          · exact he ▸ List.mem_cons_self
          · exact List.mem_cons_of_mem _ (ih h)

/-- The listed members stay if none is the parent's and the lists of conditions stay. The others go if
nothing that is left of them is a list. -/
theorem withoutParentMembers_listed {members : Object}
    (hk : ∀ key v, (key, v) ∈ listed members →
      key ≠ parent ∧ (isLogical key = true → withoutParent parent v = some v))
    (hd : ∀ key v, (key, v) ∈ members → isListed (key, v) = false →
      ∀ w, withoutParent parent v = some w → w.isList = false) :
    withoutParentMembers parent members = listed members := by
  induction members with
  | nil => rfl
  | cons kv rest ih =>
      obtain ⟨key, v⟩ := kv
      have hrest := ih (fun k u hm => hk k u (by rw [listed, List.filter_cons]; split <;> simp_all [listed]))
        fun k u hm => hd k u (by simp [hm])
      rw [withoutParentMembers, hrest]
      cases hl : isListed (key, v) with
      | true =>
          have hlisted : listed ((key, v) :: rest) = (key, v) :: listed rest := by simp [listed, hl]
          obtain ⟨hne, hstay⟩ := hk key v (by rw [hlisted]; simp)
          rw [hlisted, if_neg hne]
          cases hlog : isLogical key with
          | false => simp
          | true =>
              cases v with
              | list items => simp [hstay hlog]
              | _ => simp [isListed, hlog, Value.isList] at hl
      | false =>
          have hlisted : listed ((key, v) :: rest) = listed rest := by simp [listed, hl]
          have hlog : isLogical key = true := by
            simp only [isListed, Bool.or_eq_false_iff, Bool.not_eq_false'] at hl
            exact hl.1
          rw [hlisted]
          split
          · rfl
          · split
            · rename_i hw
              cases hd key v (by simp) hl _ hw
            · rfl

end Guard

namespace Catalog

variable {c : Catalog} {m : Model} {db : Database} {row : Row} {a : Condition} {v w : Value}
  {parent : String}

/-! ## Filters that can be read -/

theorem member_readable {o : Object} (hc : c.condition m (.object o) = .ok a) {kv : String × Value}
    (hm : kv ∈ o) : ∃ cond, c.memberCondition m kv.1 kv.2 = .ok cond := by
  obtain ⟨as, has, _⟩ := map_ok_iff.mp (by simpa only [condition] using hc)
  obtain ⟨cond, _, hcond⟩ := forall₂_partner (conditions_ok_iff.mp has) hm
  exact ⟨cond, hcond⟩

/-- The conditions under a logical key can be read if the member can. -/
theorem item_readable {o : Object} {key : String} {item : Value} (hc : c.condition m (.object o) = .ok a)
    (hm : (key, v) ∈ o) (hlog : Guard.isLogical key = true) (hi : item ∈ v.asItems) :
    ∃ cond, c.condition m item = .ok cond := by
  obtain ⟨_, hcond⟩ := member_readable hc hm
  obtain ⟨parts, hparts⟩ := parts_of_logical hlog hcond
  obtain ⟨cond, _, hcond⟩ := forall₂_partner (parts_ok_iff.mp hparts) hi
  exact ⟨cond, hcond⟩

/-- What is left of a filter that can be read is no list. -/
theorem withoutParent_not_list (hc : c.condition m v = .ok a) (hw : Guard.withoutParent parent v = some w) :
    w.isList = false := by
  induction v using Value.induct generalizing a w with
  | step v ih =>
      cases v with
      | null => cases hw
      | list items =>
          have hp := (condition_absent_ok rfl hc).1
          cases items with
          | nil => cases hw
          | cons => simp [Value.isPresent] at hp
      | object members =>
          have hleft : w = Guard.unwrap (Guard.withoutParentMembers parent members) := by
            rw [Guard.withoutParent] at hw
            split at hw
            · cases hw
            · exact (Option.some.inj hw).symm
          rcases Guard.unwrap_cases (Guard.withoutParentMembers parent members) with he | ⟨key, u, hm, hlog, he⟩
          · rw [hleft, he]
            rfl
          · -- the one condition that is left comes from a list: a value on its own leaves no list
            rw [hleft, he]
            have hin : (key, Value.list [u]) ∈ Guard.withoutParentMembers parent members := by simp [hm]
            obtain ⟨v, hv, hleft⟩ := Guard.mem_withoutParentMembers hin hlog
            have hlt := Value.sizeOf_member hv
            cases v with
            | list items =>
                have hu : u ∈ Guard.withoutParentItems parent items := by
                  rw [Guard.withoutParent] at hleft
                  split at hleft
                  · cases hleft
                  · have hitems : Guard.withoutParentItems parent items = [u] := by simpa using hleft
                    simp [hitems]
                obtain ⟨item, hi, hleft⟩ := Guard.mem_withoutParentItems hu
                obtain ⟨cond, hcond⟩ := item_readable hc hv hlog hi
                exact ih item (Nat.lt_trans (Value.sizeOf_item hi) hlt) hcond hleft
            | null => cases hleft
            | _ =>
                obtain ⟨cond, hcond⟩ := item_readable hc hv hlog (List.mem_singleton.mpr rfl)
                cases ih _ hlt hcond hleft
      | _ =>
          cases hw
          rfl

/-! ## The rows that are selected -/

theorem satisfies_absent (h : v.isPresent = false) (hc : c.condition m v = .ok a) :
    c.Satisfies m db row v := by
  cases ho : v.isObject with
  | false =>
      have := (condition_absent_ok ho hc).2
      exact ⟨a, hc, this ▸ rfl⟩
  | true =>
      cases v with
      | object members =>
          cases members with
          | nil => exact satisfies_empty
          | cons => cases h
      | _ => cases ho

/-- A filter that says nothing can be left out. -/
theorem satisfies_ifPresent (hc : c.condition m v = .ok a) :
    c.Satisfies m db row (if v.isPresent then v else .null) ↔ c.Satisfies m db row v := by
  cases hp : v.isPresent with
  | true => rfl
  | false => exact iff_of_true (satisfies_absent rfl rfl) (satisfies_absent hp hc)

/-- A filter selects the same rows as what it is unwrapped to. -/
theorem satisfies_unwrap {tree : Object} (hc : c.condition m (.object tree) = .ok a) :
    (∃ b, c.condition m (Guard.unwrap tree) = .ok b) ∧
      (c.Satisfies m db row (Guard.unwrap tree) ↔ c.Satisfies m db row (.object tree)) := by
  have hread : ∃ b, c.condition m (Guard.unwrap tree) = .ok b := by
    rcases Guard.unwrap_cases tree with he | ⟨key, u, rfl, hlog, he⟩
    · exact ⟨a, by rw [he, hc]⟩
    · rw [he]
      exact item_readable hc (List.mem_singleton.mpr rfl) hlog (List.mem_singleton.mpr rfl)
  obtain ⟨b, hb⟩ := hread
  obtain ⟨bs, hbs, hr⟩ := condition_unwrap hb
  have ha : a = .all bs := by
    rw [condition, hbs] at hc
    exact (pure_ok_iff.mp hc).symm
  have heval : b.eval db row = a.eval db row := ha ▸ hr db row
  refine ⟨⟨b, hb⟩, ?_⟩
  simp only [Satisfies, hb, hc, Except.ok.injEq, exists_eq_left', Condition.selects, heval]

theorem listed_readable {filter : Object} (hc : c.condition m (.object filter) = .ok a) :
    ∃ b, c.condition m (.object (Guard.listed filter)) = .ok b := by
  have hmembers : ∀ kv ∈ Guard.listed filter, ∃ cond, c.memberCondition m kv.1 kv.2 = .ok cond ∧ True := by
    intro kv hkv
    obtain ⟨cond, hcond⟩ := member_readable hc (List.mem_filter.mp hkv).1
    exact ⟨cond, hcond, trivial⟩
  obtain ⟨cs, hcs, _⟩ := exists_forall₂_iff.mpr hmembers
  exact ⟨.all cs, by rw [condition, conditions_ok_iff.mpr hcs]; rfl⟩

/-- A row satisfies a filter if it satisfies the listed part and each of the other members. -/
theorem satisfies_listed_iff (filter : Object) : c.Satisfies m db row (.object filter) ↔
    c.Satisfies m db row (.object (Guard.listed filter)) ∧
      ∀ kv ∈ filter, kv ∉ Guard.listed filter → c.SatisfiesMember m db row kv := by
  simp only [satisfies_object_iff, Guard.listed, List.mem_filter]
  constructor
  · exact fun h => ⟨fun kv hkv => h kv hkv.1, fun kv hkv _ => h kv hkv⟩
  · rintro ⟨hl, ho⟩ kv hkv
    by_cases hlisted : Guard.isListed kv = true
    · exact hl kv ⟨hkv, hlisted⟩
    · exact ho kv hkv fun h => hlisted h.2

end Catalog

namespace Include

variable {v : Viewpoint} {parent : String} {r : Relation} {nested : Object} {d : Decision}

/-- The filter of the rows of an entry; null if all rows are taken. -/
def filterOf (entry : Value) : Value := Object.get (Shape.members entry) "where"

theorem entry_filterOf (parent : String) (nested : Object) {omission : Object}
    (hd : v.decide .read r.target = .ok d) (hden : d.denied = false) (ho : v.omission r.target = .ok omission) :
    ∃ x, entry v parent r nested = .ok (some x) ∧
      filterOf x = if (rowFilter parent r d).isPresent then rowFilter parent r d else .null := by
  refine ⟨_, entry_some_iff.mpr ⟨d, omission, hd, hden, ho, rfl⟩, ?_⟩
  dsimp only
  rw [filterOf, members_parts, (get_parts _ _ _).2.2.1]

/-- If the listed part of a filter stands alone, it is what the filter comes to. -/
theorem rowFilter_listed {c : Catalog} {m : Model} {a : Condition} (hl : r.isList = true)
    (ht : Guard.Tidy (.object d.filter)) (hc : c.condition m (.object d.filter) = .ok a)
    (hs : Guard.standsAlone parent (.object (Guard.listed d.filter)) = true) :
    rowFilter parent r d =
      if Guard.listed d.filter = [] then .null else Guard.unwrap (Guard.listed d.filter) := by
  have hne : d.filter.isEmpty = false := by
    cases ht with
    | scalar _ _ ho => cases ho
    | object hne => simpa using hne
  have hmem {key : String} {u : Value} (hm : (key, u) ∈ Guard.listed d.filter) : (key, u) ∈ d.filter :=
    (List.mem_filter.mp hm).1
  rw [Guard.standsAlone, Guard.membersStandAlone_iff] at hs
  have hleft : Guard.withoutParentMembers parent d.filter = Guard.listed d.filter := by
    refine Guard.withoutParentMembers_listed (fun key u hm => ?_) fun key u hm hu w hw => ?_
    · obtain ⟨hk, hstay⟩ := hs key u hm
      refine ⟨hk, fun hlog => ?_⟩
      obtain ⟨hlist, halone⟩ := hstay hlog
      have hn : u ≠ .null := by rintro rfl; cases hlist
      exact (ht.member (hmem hm) hn).withoutParent_eq halone
    · simp only [Guard.isListed, Bool.or_eq_false_iff, Bool.not_eq_false'] at hu
      cases u with
      | list => cases hu.2
      | null => cases hw
      | _ =>
          obtain ⟨cond, hcond⟩ := Catalog.item_readable hc hm hu.1 (List.mem_singleton.mpr rfl)
          exact Catalog.withoutParent_not_list hcond hw
  rw [rowFilter, if_pos ⟨hl, by simp [hne]⟩, Guard.withoutParent, hleft]
  split_ifs with hempty
  · rw [hempty]
    rfl
  · have htidy := Guard.unwrap_tidy hempty fun key u hm => ht.member (hmem hm)
    have hn := htidy.ne_null
    split
    · rename_i hnull
      exact absurd hnull hn
    · rw [Option.bind_some, htidy.clean_eq, Option.getD_some]

/-- The entry of a filtered list carries the filter as it is, if no condition is on the parent and
logical keys stand over lists, at every level that is reached by logic. Members under a logical key
that are no lists are lost: then the rows are those of the filter exactly if the listed part implies
the members that are lost. -/
theorem entry_selects (parent : String) (nested : Object) {omission : Object} (hl : r.isList = true)
    (hd : v.decide .read r.target = .ok d) (hf : d.filter ≠ []) (ho : v.omission r.target = .ok omission) :
    ∃ x, entry v parent r nested = .ok (some x) ∧
      (Guard.standsAlone parent (.object d.filter) = true → filterOf x = .object d.filter) ∧
      ∀ (c : Catalog) (m : Model) (a : Condition), c.condition m (.object d.filter) = .ok a →
        Guard.standsAlone parent (.object (Guard.listed d.filter)) = true → ∀ db,
          ((∀ row, c.Satisfies m db row (filterOf x) ↔ c.Satisfies m db row (.object d.filter)) ↔
            ∀ row, c.Satisfies m db row (.object (Guard.listed d.filter)) →
              ∀ kv ∈ d.filter, kv ∉ Guard.listed d.filter → c.SatisfiesMember m db row kv) := by
  have hden : d.denied = false := by
    cases d with
    | deny => exact absurd rfl hf
    | allow | restrict => rfl
  obtain ⟨x, hx, hfilter⟩ := entry_filterOf parent nested hd hden ho
  refine ⟨x, hx, fun hs => ?_, fun c m a hc hs db => ?_⟩
  · have hu : Unconditional v parent r := by
      intro _ d' hd'
      rw [hd] at hd'
      cases hd'
      exact hs
    rw [hfilter, rowFilter_eq hd hu hl hf]
    simp [Value.isPresent, hf]
  · have hrows row : c.Satisfies m db row (filterOf x) ↔
        c.Satisfies m db row (.object (Guard.listed d.filter)) := by
      obtain ⟨b, hb⟩ := Catalog.listed_readable hc
      have htidy := (Rules.decide_tidy hd).resolve_left hf
      rw [hfilter, rowFilter_listed hl htidy hc hs]
      by_cases hempty : Guard.listed d.filter = []
      · rw [if_pos hempty, hempty]
        exact iff_of_true (Catalog.satisfies_absent rfl rfl) Catalog.satisfies_empty
      · obtain ⟨⟨u, hu⟩, hsame⟩ := Catalog.satisfies_unwrap hb
        rw [if_neg hempty, Catalog.satisfies_ifPresent hu, hsame]
    simp only [hrows, Catalog.satisfies_listed_iff d.filter]
    constructor
    · exact fun h row hrow => ((h row).mp hrow).2
    · exact fun h row => ⟨fun hrow => ⟨hrow, h row hrow⟩, And.left⟩

/-! Comments on a post, of which a moderator sees those that a filter selects. -/

def moderator (filter : Object) : Viewpoint :=
  ⟨Catalog.blogCatalog.schema, ⟨[("Comment", { readable := some fun _ => .ok (.object filter) })]⟩,
    .principal {}⟩

def comments : Relation := ⟨"comments", "Comment", .many, [], ["postId"]⟩

/-- Comments that were approved, or that say yes on a certain post. -/
def moderated : Object := [("OR", .list [.object [("approved", .bool true)],
  .object [("AND", .list [.object [("postId", .int 3)], .object [("body", .text "yes")]])]])]

/-- The alternatives are carried along as they are. -/
theorem moderated_carried :
    comments.isList = true ∧ (moderator moderated).decide .read "Comment" = .ok (.restrict moderated) ∧
    moderated ≠ [] ∧ (moderator moderated).omission "Comment" = .ok [] ∧
    Guard.standsAlone "Post" (.object moderated) = true ∧
    ∃ x, entry (moderator moderated) "Post" comments [] = .ok (some x) ∧ filterOf x = .object moderated := by
  have hl : comments.isList = true := rfl
  have hd : (moderator moderated).decide .read "Comment" = .ok (.restrict moderated) := by cbv
  have hf : moderated ≠ [] := by simp [moderated]
  have ho : (moderator moderated).omission "Comment" = .ok [] := by cbv
  have hs : Guard.standsAlone "Post" (.object moderated) = true := by cbv
  obtain ⟨x, hx, hcarried, _⟩ := entry_selects "Post" [] hl hd hf ho
  exact ⟨hl, hd, hf, ho, hs, x, hx, hcarried hs⟩

/-- The condition that a comment was approved, under `AND` without a list. -/
def approval : Object := [("AND", .object [("approved", .bool true)])]

def rejected : Row := [("id", .integer 2), ("body", .text "no"), ("approved", .integer 0), ("postId", .integer 3)]

def commentModel : Model := (Catalog.blogCatalog.model? "Comment").getD default

/-- The condition is lost, and a comment that was rejected comes with the post. -/
theorem approval_lost :
    (moderator approval).decide .read "Comment" = .ok (.restrict approval) ∧
    entry (moderator approval) "Post" comments [] = .ok (some (.bool true)) ∧
    Catalog.blogCatalog.model? "Comment" = some commentModel ∧
    rejected ∈ Catalog.blogDatabase.rows commentModel ∧
    Catalog.blogCatalog.Satisfies commentModel Catalog.blogDatabase rejected (filterOf (.bool true)) ∧
    ¬ Catalog.blogCatalog.Satisfies commentModel Catalog.blogDatabase rejected (.object approval) := by
  have hc : Catalog.blogCatalog.condition commentModel (.object approval) =
      .ok (.all [.all [.all [.compare .equal "approved" (.ok (.integer 1))]]]) := by cbv
  have hrows : Catalog.blogDatabase.rows commentModel = [[("id", .integer 1), ("body", .text "yes"),
      ("approved", .integer 1), ("postId", .integer 3)], rejected] := by cbv
  refine ⟨by cbv, by cbv, rfl, by simp [hrows], Catalog.satisfies_absent rfl rfl, ?_⟩
  rintro ⟨cond, hcond, hs⟩
  rw [hc] at hcond
  cases hcond
  cases hs

end Include

end RecordGraph
