import RecordGraph.Operation.Read
import RecordGraph.Proofs.Access.Merge
import RecordGraph.Proofs.Operation.Recording

/-!
# Reads are guarded

Whatever a caller asks and hooks make of it, the storage is asked only for rows that the user may
read, for a page within the limits, and for the number of the same rows. For a user who may read
nothing it is not asked at all.
-/

namespace RecordGraph

namespace Paging

theorem skip_nonneg (offset : Value) : 0 ≤ skip offset := by
  unfold skip
  split
  · exact Int.le_max_right _ _
  · exact Int.le_refl 0

theorem take_bounds {limit : Int} {wanted : Value} {n : Int} (h : take limit wanted = .ok n)
    (hl : 1 ≤ limit) : 1 ≤ n ∧ n ≤ limit := by
  unfold take at h
  split at h
  · split at h
    · cases pure_ok_iff.mp h
      omega
    · simp [throw_ok_iff] at h
  · simp [throw_ok_iff] at h

end Paging

namespace Plan

/-- A page within the limits. -/
def Bounded (limit : Int) (plan : Plan) : Prop :=
  (∃ skip, plan.skip = some skip ∧ 0 ≤ skip) ∧
    ∃ take, plan.take = some take ∧ (1 ≤ limit → 1 ≤ take ∧ take ≤ limit)

end Plan

namespace Engine

section
variable {σ : Type} {e : Engine σ} {entity : String} {user : User}

theorem readFilter_confined (hr : e.rules.Proper) {query : Value} {filter : Object}
    (h : e.readFilter entity user query = .ok filter) :
    e.rules.Confined .read entity user (.object filter) := by
  have hread {own : Object} (hw : e.rules.readWhere entity user own = .ok filter) :
      e.rules.Confined .read entity user (.object filter) := by
    obtain ⟨guard, hg, hw⟩ := bind_ok_iff.mp hw
    rw [← pure_ok_iff.mp hw]
    exact Rules.merge_confined hr hg
  unfold readFilter at h
  split at h
  · exact hread h
  · obtain ⟨own, _, h⟩ := bind_ok_iff.mp h
    exact hread h
  · exact hread h

theorem listPlan_guarded (hr : e.rules.Proper) {request : ListRequest} {plan : Plan}
    (h : e.listPlan entity user request = .ok plan) :
    e.rules.Confined .read entity user (.object plan.filter) ∧ plan.Bounded e.settings.resultLimit := by
  obtain ⟨shape, _, h⟩ := bind_ok_iff.mp h
  obtain ⟨filter, hf, h⟩ := bind_ok_iff.mp h
  obtain ⟨path, _, h⟩ := bind_ok_iff.mp h
  obtain ⟨order, _, h⟩ := bind_ok_iff.mp h
  obtain ⟨take, ht, h⟩ := bind_ok_iff.mp h
  rw [← pure_ok_iff.mp h]
  exact ⟨readFilter_confined hr hf, ⟨_, rfl, Paging.skip_nonneg _⟩, take, rfl, Paging.take_bounds ht⟩

end

/-! ## What reads ask -/

variable {σ : Type}

/-- The calls for a page: its rows and their number, in one transaction. -/
def pageCalls (entity : String) (plan : Plan) : List Call :=
  [.transaction .null, .findMany entity plan, .count entity plan.filter]

/-- What is known of the calls for a list and of how it ends, by the rules and the limit. -/
def ListCalls (rules : Rules) (limit : Int) (entity : String) (user : User) (continues : Prop)
    (calls : List Call) (out : Except Failure Outcome) : Prop :=
  (calls = [] ∨ ∃ plan, calls <+: pageCalls entity plan ∧
    rules.Confined .read entity user (.object plan.filter) ∧ plan.Bounded limit) ∧
  (continues → ∀ o, out = .ok o → ∃ plan, calls = pageCalls entity plan)

variable {b : Backend σ} {schema : Schema} {rules : Rules} {hooks : Registry σ} {settings : Settings}
  {entity : String} {user : User}

/-- The work of a page asks for its rows and then for their number. -/
theorem pageWork_asks {plan : Plan} :
    (do
      let records ← b.within.recorded.findMany entity plan
      let total ← b.within.recorded.count entity plan.filter
      return (records, total) : Act (Recorded σ) (List Value × Int)).Asks fun calls out =>
        calls <+: [Call.findMany entity plan, Call.count entity plan.filter] ∧
        ∀ o, out = .ok o → calls = [Call.findMany entity plan, Call.count entity plan.filter] := by
  have hrows : (b.within.recorded.findMany entity plan).Asks fun calls _ =>
      calls = [Call.findMany entity plan] := Act.asks_noted fun _ => rfl
  have hcount : (b.within.recorded.count entity plan.filter).Asks fun calls _ =>
      calls = [Call.count entity plan.filter] := Act.asks_noted fun _ => rfl
  refine hrows.bind (fun _ _ hc => ?_) fun _ _ hc => ?_
  · subst hc
    exact ⟨⟨_, rfl⟩, fun _ he => by cases he⟩
  · subst hc
    refine hcount.bind (fun _ _ hc => ?_) fun _ _ hc => Act.asks_pure ?_
    · subst hc
      exact ⟨List.prefix_refl _, fun _ he => by cases he⟩
    · subst hc
      exact ⟨List.prefix_refl _, fun _ _ => rfl⟩

theorem getMany_asks (hr : rules.Proper) {request : ListRequest} :
    ((recorded b schema rules hooks settings).getMany entity user request).Asks
      (ListCalls rules settings.resultLimit entity user (hooks.Continues "before" "get_many" entity)) := by
  have hfail (failure : Failure) : ListCalls rules settings.resultLimit entity user
      (hooks.Continues "before" "get_many" entity) [] (.error failure) :=
    ⟨.inl rfl, fun _ _ he => by cases he⟩
  unfold getMany
  refine Act.asks_ofExcept_bind hfail fun take _ => ?_
  refine Act.asks_ofExcept_bind hfail fun path _ => ?_
  refine Act.asks_ofExcept_bind hfail fun options _ => ?_
  refine (Registry.asks_execute rfl rfl).bind_quiet hfail fun before hbefore => ?_
  split
  · rename_i habort
    exact Act.asks_pure ⟨.inl rfl, fun hno => by rw [hbefore hno] at habort; cases habort⟩
  · refine Act.asks_ofExcept_bind hfail fun plan hplan => ?_
    obtain ⟨hconf, hbound⟩ := listPlan_guarded hr hplan
    have hpart {calls : List Call} (hc : calls <+: pageCalls entity plan) {out : Except Failure Outcome}
        (hout : ∀ o, out = .ok o → calls = pageCalls entity plan) :
        ListCalls rules settings.resultLimit entity user
          (hooks.Continues "before" "get_many" entity) calls out :=
      ⟨.inr ⟨plan, hc, hconf, hbound⟩, fun _ o he => ⟨plan, hout o he⟩⟩
    have hpage : ((recorded b schema rules hooks settings).ask []
        ((recorded b schema rules hooks settings).storage.inTransaction .null fun tx => do
          let records ← tx.findMany entity plan
          let total ← tx.count entity plan.filter
          return (records, total))).Asks fun calls out =>
            calls <+: pageCalls entity plan ∧ ∀ o, out = .ok o → calls = pageCalls entity plan := by
      refine asks_ask (Backend.asks_inTransaction pageWork_asks ?_ ?_ ?_) ?_
      · exact fun failure => ⟨⟨_, rfl⟩, fun _ he => by cases he⟩
      · exact fun calls out failure hp => ⟨List.cons_prefix_cons.mpr ⟨rfl, hp.1⟩, fun _ he => by cases he⟩
      · exact fun calls out hp => ⟨List.cons_prefix_cons.mpr ⟨rfl, hp.1⟩,
          fun o he => congrArg _ (hp.2 o he)⟩
      · exact fun calls failure other hp => ⟨hp.1, fun _ he => by cases he⟩
    refine hpage.bind (fun calls failure hp => hpart hp.1 fun _ he => by cases he) fun calls o hp => ?_
    have hall : calls = pageCalls entity plan := hp.2 o rfl
    refine (Registry.asks_execute rfl rfl).bind_quiet (fun failure => ?_) fun after _ => Act.asks_pure ?_
    · rw [List.append_nil]
      exact hpart hp.1 fun _ he => by cases he
    · rw [List.append_nil]
      exact hpart hp.1 fun _ _ => hall

/-- What is known of the calls for a number of rows. -/
def CountCalls (rules : Rules) (entity : String) (user : User) (continues : Prop) (calls : List Call)
    (out : Except Failure Outcome) : Prop :=
  (calls = [] ∨ ∃ filter, calls = [.count entity filter] ∧
    rules.Confined .read entity user (.object filter)) ∧
  (continues → ∀ o, out = .ok o → ∃ filter, calls = [.count entity filter])

theorem count_asks (hr : rules.Proper) {query : Value} :
    ((recorded b schema rules hooks settings).count entity user query).Asks
      (CountCalls rules entity user (hooks.Continues "before" "count" entity)) := by
  have hfail (failure : Failure) : CountCalls rules entity user
      (hooks.Continues "before" "count" entity) [] (.error failure) :=
    ⟨.inl rfl, fun _ _ he => by cases he⟩
  unfold count
  refine (Registry.asks_execute rfl rfl).bind_quiet hfail fun before hbefore => ?_
  split
  · rename_i habort
    exact Act.asks_pure ⟨.inl rfl, fun hno => by rw [hbefore hno] at habort; cases habort⟩
  · refine Act.asks_ofExcept_bind hfail fun filter hfilter => ?_
    have hpart (out : Except Failure Outcome) : CountCalls rules entity user
        (hooks.Continues "before" "count" entity) [.count entity filter] out :=
      ⟨.inr ⟨filter, rfl, readFilter_confined hr hfilter⟩, fun _ _ _ => ⟨filter, rfl⟩⟩
    have hcount : ((recorded b schema rules hooks settings).ask []
        ((recorded b schema rules hooks settings).storage.count entity filter)).Asks fun calls _ =>
          calls = [.count entity filter] :=
      asks_ask (Act.asks_noted fun _ => rfl) fun _ _ _ hc => hc
    refine hcount.bind (fun calls failure hc => hc ▸ hpart _) fun calls total hc => ?_
    subst hc
    refine (Registry.asks_execute rfl rfl).bind_quiet (fun failure => hpart _) fun after _ => ?_
    split
    · exact Act.asks_pure (hpart _)
    · exact Act.asks_pure (hpart _)

/-- Lists and counts ask only for what the user may read, whatever the hooks make of the request. A
list that no hook ends asks for a page and for the number of the same rows; a user who may read
nothing asks nothing. -/
theorem reads_guarded (b : Backend σ) (schema : Schema) (rules : Rules) (hooks : Registry σ)
    (settings : Settings) (entity : String) (user : User) (hr : rules.Proper) :
    (∀ request, ((recorded b schema rules hooks settings).getMany entity user request).Asks
      fun calls out =>
        ListCalls rules settings.resultLimit entity user (hooks.Continues "before" "get_many" entity)
          calls out ∧
        ∀ d, rules.decide .read entity user = .ok d → d.denied = true → calls = []) ∧
    ∀ query, ((recorded b schema rules hooks settings).count entity user query).Asks
      fun calls out =>
        CountCalls rules entity user (hooks.Continues "before" "count" entity) calls out ∧
        ∀ d, rules.decide .read entity user = .ok d → d.denied = true → calls = [] := by
  constructor
  · refine fun request => (getMany_asks hr).mono fun calls out h => ⟨h, fun d hd hden => ?_⟩
    rcases h.1 with hnil | ⟨plan, _, hconf, _⟩
    · exact hnil
    · rw [hconf.not_denied hd] at hden
      cases hden
  · refine fun query => (count_asks hr).mono fun calls out h => ⟨h, fun d hd hden => ?_⟩
    rcases h.1 with hnil | ⟨filter, _, hconf⟩
    · exact hnil
    · rw [hconf.not_denied hd] at hden
      cases hden

/-! A club whose members see active users only, with a hook that asks for the others. -/

def clubSchema : Schema :=
  ⟨[("User", .ok ⟨"User", ["id"], [⟨"id", .scalar, "int", false, false, true, false⟩], []⟩)]⟩

def clubRules : Rules := .reading "User" (.object [("active", .bool true)])

def pryingHook : Handler Unit := .leaving "prying" fun c => pure
  { c with query := .object [("active", .bool false)], take := .int 100000, offset := .int (-5), user := none }

def clubHooks : Registry Unit := ⟨[(⟨"before", "get_many", "User"⟩, [pryingHook])]⟩

/-- A storage that holds nothing. -/
def emptyAccess : Access Unit where
  findMany _ _ := pure []
  findUnique _ _ := pure none
  count _ _ := pure 0
  create _ _ _ := pure []
  update _ _ _ _ := pure none
  upsert _ _ _ _ _ := pure []
  delete _ _ _ := pure none
  createMany _ _ := pure 0

def emptyBackend : Backend Unit := ⟨emptyAccess, emptyAccess, fun _ => pure (), fun _ => pure ()⟩

def pryingPlan : Plan :=
  { filter := [("active", .bool false), ("AND", .list [.object [("active", .bool true)]])]
    order := some [("id", .text "asc")], take := some 500, skip := some 0 }

/-- The hook gets what it asks for only of active users, and no more than a page. -/
theorem pryingHook_guarded :
    clubRules.Proper ∧
    (((recorded emptyBackend clubSchema clubRules clubHooks {}).getMany "User" (.principal {}) {}).runOn
      ⟨(), []⟩).2.calls = pageCalls "User" pryingPlan ∧
    clubRules.Confined .read "User" (.principal {}) (.object pryingPlan.filter) := by
  have hr : clubRules.Proper :=
    Rules.reading_proper (by simp [Value.Proper, Value.ProperMembers, Object.keys])
  have hcalls : (((recorded emptyBackend clubSchema clubRules clubHooks {}).getMany "User" (.principal {})
      {}).runOn ⟨(), []⟩).2.calls = pageCalls "User" pryingPlan := rfl
  refine ⟨hr, hcalls, ?_⟩
  have h := (reads_guarded emptyBackend clubSchema clubRules clubHooks {} "User" (.principal {}) hr).1 {}
  obtain ⟨calls, hc, ⟨hlist, _⟩, _⟩ := h ⟨(), []⟩
  rw [hcalls, List.nil_append] at hc
  subst hc
  rcases hlist with hnil | ⟨plan, hpre, hconf, _⟩
  · cases hnil
  · have heq : pageCalls "User" pryingPlan = pageCalls "User" plan :=
      hpre.eq_of_length rfl
    injection heq with _ heq
    injection heq with heq
    injection heq with _ heq
    rw [heq]
    exact hconf

end Engine

end RecordGraph
