import RecordGraph.Proofs.Failure.Refusal
import RecordGraph.Proofs.Mutation.Denial
import RecordGraph.Proofs.Mutation.Stability

/-!
# Misshapen payloads

Whatever stands in a payload, at any depth, it is transformed or refused. There is one exception: a relation of the
record itself that is given a value which is present and neither a record nor a list is taken for a record, and the
writer fails in the middle of the work.
-/

namespace RecordGraph

/-- If there is a failure, it is a refusal. -/
abbrev Refusing {α : Type} (x : Except Failure α) : Prop := FailsOnly (·.isRefusal = true) x

/-- If there is a failure, it is a refusal, or something odd was found in the middle of the work. -/
abbrev RefusingUnless {α : Type} (odd : Prop) (x : Except Failure α) : Prop :=
  FailsOnly (fun failure => failure.isRefusal = true ∨ failure = .illFormed ∧ odd) x

namespace FailsOnly

variable {α : Type} {odd other : Prop} {x : Except Failure α}

theorem weaken (hx : Refusing x) : RefusingUnless odd x := hx.mono fun _ => .inl

theorem imp_odd (hx : RefusingUnless odd x) (h : odd → other) : RefusingUnless other x :=
  hx.mono fun _ => Or.imp_right (And.imp_right h)

theorem refusing (hx : RefusingUnless odd x) (h : ¬ odd) : Refusing x :=
  hx.mono fun _ hfailure => hfailure.resolve_right fun hodd => h hodd.2

end FailsOnly

/-- Whatever a rule is asked, it answers or refuses. A list of fields that it omits names them by texts. -/
structure Rule.Answers (rule : Rule) : Prop where
  decides : ∀ (action : Action) ask, action.ask rule = some ask → ∀ p, Refusing (ask p)
  creates : ∀ ask, rule.mayCreate = some ask → ∀ p payload, Refusing (ask p payload)
  omits : ∀ ask, rule.omitted = some ask → ∀ p, Refusing (ask p)
  names : ∀ ask, rule.omitted = some ask → ∀ p items, ask p = .ok (.list items) → ∀ item ∈ items, item.isText = true

def Rules.Answer (rs : Rules) : Prop := ∀ entity rule, rs.get? entity = some rule → rule.Answers

theorem Rules.answer_of_all {rs : Rules} (h : ∀ kv ∈ rs.entries, kv.2.Answers) : rs.Answer := by
  intro entity rule hrule
  obtain ⟨_, _, heq, _⟩ := List.lookup_eq_some_iff.mp hrule
  exact h (entity, rule) (by simp [heq])

/-- A value that is neither a record nor a list. -/
def Value.Flat (v : Value) : Prop := v.isObject = false ∧ v.isList = false

/-- A member gives a relation something that is neither a record nor a list. -/
def Entity.Misshapes (e : Entity) (kv : String × Value) : Prop :=
  ¬ e.IsScalar kv.1 ∧ (e.relation? kv.1).isSome = true ∧ kv.2.isPresent = true ∧ kv.2.Flat

theorem Value.not_flat_of_nests {v : Value} (h : v.nests = true) : ¬ v.Flat := by
  rintro ⟨hobject, hlist⟩
  rw [nests, hobject, hlist, Bool.or_false, Bool.and_false] at h
  cases h

theorem Value.not_isList {v : Value} (h : ∀ items, v = .list items → False) : v.isList = false := by
  cases v with
  | list items => exact (h items rfl).elim
  | _ => rfl

/-! ## Rules -/

namespace Rules.Answer

variable {rs : Rules} (hr : rs.Answer) {user : User}
include hr

theorem decide (action : Action) (entity : String) : Refusing (rs.decide action entity user) := by
  unfold Rules.decide
  split
  · exact .ok
  · split
    · exact .ok
    next hask =>
      obtain ⟨rule, hrule, hask⟩ := Option.bind_eq_some_iff.mp hask
      exact ((hr entity rule hrule).decides action _ hask _).map

theorem filterFor (action : Action) (entity : String) : Refusing (rs.filterFor action entity user) := by
  refine (hr.decide action entity).bind fun d _ => ?_
  cases d with
  | deny => exact .error rfl
  | allow | restrict _ => exact .ok

theorem canCreate (entity : String) (payload : Value) : Refusing (rs.canCreate entity user payload) := by
  unfold Rules.canCreate
  split
  · exact .ok
  · split
    · exact .ok
    next hask =>
      obtain ⟨rule, hrule, hask⟩ := Option.bind_eq_some_iff.mp hask
      exact ((hr entity rule hrule).creates _ hask _ _).map

theorem ensureCanCreate (entity : String) (payload : Value) : Refusing (rs.ensureCanCreate entity user payload) := by
  refine (hr.canCreate entity payload).bind fun may _ => ?_
  cases may with
  | false => exact .error rfl
  | true => exact .ok

theorem omitted (entity : String) : Refusing (rs.omitted entity user) := by
  unfold Rules.omitted
  split
  · exact .ok
  · split
    · exact .ok
    next p _ _ hask =>
      obtain ⟨rule, hrule, hask⟩ := Option.bind_eq_some_iff.mp hask
      refine ((hr entity rule hrule).omits _ hask p).bind fun answer hanswer => ?_
      cases answer with
      | list items =>
          refine .mapM fun item hitem => ?_
          have htext := (hr entity rule hrule).names _ hask p items hanswer item hitem
          cases item with
          | text name => exact .ok
          | _ => cases htext
      | _ => exact .ok

end Rules.Answer

namespace Writer

variable {w : Writer} {e : Entity} {entity key path : String} {r : Relation} {v : Value} {item body : Object}

/-! ## Conditions and bodies -/

theorem checkedItem_refusing (he : w.view.schema.entity entity = .ok e) : Refusing (w.checkedItem entity path v) := by
  unfold checkedItem
  split
  · refine (FailsOnly.of_ok he).bind fun e _ => ?_
    refine FailsOnly.bind (.forIn fun kv _ _ => ?_) fun _ _ => .ok
    dsimp only
    split
    · exact .error rfl
    · exact .ok
  · exact .error rfl

theorem mem_keys_of_given (h : (item.get key).isNull = false) : key ∈ item.keys := by
  refine List.mem_map.mpr ⟨_, Object.mem_of_get_ne_null fun hnull => ?_, rfl⟩
  rw [hnull] at h
  cases h

theorem keyWhere_refusing {keys : List String} (h : ∀ k ∈ keys, k ∈ item.keys) : Refusing (keyWhere keys item) := by
  refine .mapM fun k hk => ?_
  split
  · exact .ok
  next hnone => exact absurd (h k hk) (Object.get?_eq_none_iff.mp hnone)

/-- An item that is not created has a whole key, or is a row of a join table. -/
theorem itemKind_keyed {keys : List String} {joinKey : Option (List String)} (h : itemKind keys joinKey item ≠ .create)
    (hjoin : joinKey = none) : ∀ k ∈ keys, k ∈ item.keys := by
  subst hjoin
  intro k hk
  simp only [itemKind, Option.isSome_none, Bool.false_or] at h
  split at h
  next honly =>
    have hall := (Bool.and_eq_true_iff.mp honly).2
    simpa using List.all_eq_true.mp hall k hk
  next =>
    split at h
    next hcomplete =>
      refine mem_keys_of_given ?_
      simpa using List.all_eq_true.mp hcomplete k hk
    next => exact absurd rfl h

theorem itemWhere_refusing {keys : List String} {joinKey : Option (List String)} {parent : Value}
    (h : joinKey = none → ∀ k ∈ keys, k ∈ item.keys) : Refusing (itemWhere r keys joinKey parent item) := by
  unfold itemWhere
  cases joinKey with
  | none => exact keyWhere_refusing (h rfl)
  | some names => exact .ok

theorem joinKey_refusing {target : Entity} (ht : w.view.schema.entity r.target = .ok target) :
    Refusing (w.view.schema.joinKey? r) := by
  unfold Schema.joinKey?
  split
  · exact .ok
  · exact FailsOnly.bind (FailsOnly.of_ok ht).map fun _ _ => .ok

section
variable (hr : w.view.rules.Answer)
include hr

theorem guarded_refusing {target : String} {condition : Object} : Refusing (w.guarded target condition) :=
  (hr.filterFor .read target).bind fun _ _ => .ok

theorem connect_refusing {target : Entity} (ht : w.view.schema.entity r.target = .ok target) :
    Refusing (w.connect r v) := by
  have hkeys : Refusing (w.view.schema.keys r.target) := (FailsOnly.of_ok ht).map
  have hfirst : Refusing (Schema.connectKey.firstKey w.view.schema r) := (FailsOnly.of_ok ht).map
  have hguarded : ∀ condition : Object, Refusing (pure condition >>= w.guarded r.target) :=
    fun condition => guarded_refusing hr
  refine FailsOnly.bind (hkeys.bind fun keys _ => ?_) fun _ _ => .ok
  dsimp only
  split
  · split <;> exact hguarded _
  · refine FailsOnly.bind ?_ fun key _ => hguarded _
    unfold Schema.connectKey
    split
    · split
      · exact hfirst
      · exact .ok
    · exact hfirst

variable (hs : w.view.schema.Linked)
include hs

/-- The key of a record that is linked is looked for in an entity that is declared. -/
theorem connect_foreign_refusing (he : w.view.schema.entity entity = .ok e) (hf : e.relationForField? key = some r) :
    Refusing (w.connect r v) := by
  obtain ⟨target, ht⟩ := hs entity e he r (List.mem_of_find?_eq_some hf)
  exact connect_refusing hr ht

theorem linkForeignKeys_refusing {updating : Bool} (he : w.view.schema.entity entity = .ok e) :
    Refusing (w.linkForeignKeys entity updating item) := by
  refine (FailsOnly.of_ok he).bind fun e' he' => ?_
  refine .fold fun kv _ body => ?_
  dsimp only
  split
  · exact .ok
  next r hf =>
    split
    · split <;> exact .ok
    · exact (connect_foreign_refusing hr hs he' hf).bind fun _ _ => .ok

/-! ## Created records -/

section
variable {nesting : Nesting}
  (hn : ∀ r v path, (∃ target, w.view.schema.entity r.target = .ok target) → v.nests = true →
    Refusing (nesting r v path))
include hn

theorem createMember_refusing (he : w.view.schema.entity entity = .ok e) :
    Refusing (w.createMember nesting e path body key) := by
  unfold createMember
  dsimp only
  split
  next r hf =>
    split
    · exact .ok
    · exact (connect_foreign_refusing hr hs he hf).bind fun _ _ => .ok
  next =>
    split
    next r hrel =>
      split
      next hv =>
        exact (hn _ _ _ (hs entity e he r (List.mem_of_find?_eq_some hrel)) hv).bind fun _ _ => .ok
      next => exact .ok
    next => exact .ok

theorem createItem_refusing (he : w.view.schema.entity entity = .ok e) :
    Refusing (w.createItem nesting entity path item) := by
  refine (FailsOnly.of_ok he).bind fun e' he' => ?_
  exact .fold fun key _ body => createMember_refusing hr hs hn he'

variable {target : Entity} (ht : w.view.schema.entity r.target = .ok target)
include ht

theorem placeItem_refusing {keys dropped : List String} {joined : Bool} :
    Refusing (w.placeItem nesting r path keys joined dropped v) := by
  unfold placeItem
  refine (checkedItem_refusing ht).bind fun members _ => ?_
  dsimp only
  have hbody : Refusing (w.createItem nesting r.target path (members.without dropped)) :=
    createItem_refusing hr hs hn ht
  split
  · exact (hr.ensureCanCreate r.target v).bind fun _ _ => hbody.bind fun _ _ => .ok
  next hcomplete =>
    have hall : ∀ k ∈ keys, k ∈ members.keys := by
      intro k hk
      refine mem_keys_of_given ?_
      simp only [Bool.or_eq_true, Bool.not_eq_true', not_or, Bool.not_eq_false] at hcomplete
      simpa using List.all_eq_true.mp hcomplete.2 k hk
    split
    · exact (keyWhere_refusing hall).bind fun _ _ => (guarded_refusing hr).bind fun _ _ => .ok
    · refine (hr.ensureCanCreate r.target v).bind fun _ _ => ?_
      refine (keyWhere_refusing hall).bind fun _ _ => (guarded_refusing hr).bind fun _ _ => ?_
      exact hbody.bind fun _ _ => .ok

theorem createMany_refusing {items : List Value} : Refusing (w.createMany nesting r items path) := by
  refine FailsOnly.bind (FailsOnly.of_ok ht).map fun keys _ => ?_
  refine FailsOnly.bind (joinKey_refusing ht) fun joinKey _ => ?_
  refine (hr.omitted r.target).bind fun omitted _ => ?_
  exact FailsOnly.bind (.mapM fun item _ => placeItem_refusing hr hs hn ht) fun _ _ => .ok

/-- What is no record is taken for one, and found out when the writer looks for its members. -/
theorem createOne_fails : RefusingUnless (v.isObject = false) (w.createOne nesting r v path) := by
  unfold createOne
  split
  · exact .ok
  · refine (hr.ensureCanCreate r.target v).weaken.bind fun _ _ => ?_
    refine (hr.omitted r.target).weaken.bind fun omitted _ => ?_
    split
    next given =>
      refine FailsOnly.weaken ((checkedItem_refusing ht).bind fun members _ => ?_)
      exact (createItem_refusing hr hs hn ht).bind fun _ _ => .ok
    next hgiven =>
      refine .error (.inr ⟨rfl, ?_⟩)
      cases v with
      | object members => exact absurd rfl (hgiven members)
      | _ => rfl

end

theorem createNested_fails (levels : Nat) {target : Entity} (ht : w.view.schema.entity r.target = .ok target) :
    RefusingUnless v.Flat (w.createNested levels r v path) := by
  induction levels generalizing r target v path with
  | zero => exact .error (.inl rfl)
  | succ levels ih =>
      have hn : ∀ r v path, (∃ target, w.view.schema.entity r.target = .ok target) → v.nests = true →
          Refusing (w.createNested levels r v path) :=
        fun r v path ⟨_, ht⟩ hv => (ih ht).refusing (Value.not_flat_of_nests hv)
      rw [createNested]
      dsimp only
      split
      · exact (createMany_refusing hr hs hn ht).weaken
      next hlist => exact (createOne_fails hr hs hn ht).imp_odd fun hobject => ⟨hobject, Value.not_isList hlist⟩

/-! ## Updated records -/

section
variable {nesting : UpdateNesting}
  (hn : ∀ r v, (∃ target, w.view.schema.entity r.target = .ok target) → v.nests = true → Refusing (nesting r v))

omit hr in
include hn in
theorem updateItem_refusing (he : w.view.schema.entity entity = .ok e) :
    Refusing (w.updateItem nesting entity item) := by
  refine (FailsOnly.of_ok he).bind fun e' he' => ?_
  refine .fold fun kv _ body => ?_
  dsimp only
  split
  · exact .ok
  next r hrel =>
    split
    next hv =>
      refine (hn _ _ (hs entity e' he' r (List.mem_of_find?_eq_some hrel)) hv).bind fun ops _ => ?_
      cases ops <;> exact .ok
    next => exact .ok

variable {target : Entity} (ht : w.view.schema.entity r.target = .ok target)
include ht

theorem upsertEntry_refusing {keys dropped : List String} {joinKey : Option (List String)} {parent : Value}
    {canCreate : Bool} {guard : Object} (hkeys : joinKey = none → ∀ k ∈ keys, k ∈ item.keys) :
    Refusing (w.upsertEntry r keys joinKey parent dropped canCreate guard item) := by
  refine (itemWhere_refusing hkeys).bind fun condition _ => ?_
  refine (linkForeignKeys_refusing hr hs ht).bind fun changes _ => ?_
  split
  · exact (linkForeignKeys_refusing hr hs ht).bind fun _ _ => .ok
  · exact .ok

theorem upsertEntries_refusing {keys dropped : List String} {joinKey : Option (List String)} {parent : Value}
    {canCreate : Bool} {items : List Object} (hkeys : ∀ item ∈ items, joinKey = none → ∀ k ∈ keys, k ∈ item.keys) :
    Refusing (w.upsertEntries r keys joinKey parent dropped canCreate items) := by
  cases items with
  | nil => exact .ok
  | cons item items =>
      refine (hr.filterFor .update r.target).bind fun guard _ => ?_
      exact .mapM fun item hitem => upsertEntry_refusing hr hs ht (hkeys item hitem)

theorem createBodies_refusing {dropped : List String} {canCreate : Bool} {items : List Object} :
    Refusing (w.createBodies r dropped canCreate items) := by
  unfold createBodies
  split
  · exact .mapM fun item _ => (linkForeignKeys_refusing hr hs ht).bind fun _ _ => .ok
  · exact .ok

include hn in
theorem updateMany_refusing {items : List Value} {parent : Value} : Refusing (w.updateMany nesting r items parent) := by
  refine FailsOnly.bind (FailsOnly.of_ok ht).map fun keys _ => ?_
  refine FailsOnly.bind (joinKey_refusing ht) fun joinKey _ => ?_
  refine (hr.omitted r.target).bind fun omitted _ => ?_
  refine FailsOnly.bind (.mapM fun item _ => ?_) fun prepared _ => ?_
  · exact (checkedItem_refusing ht).bind fun members _ => updateItem_refusing hs hn ht
  refine FailsOnly.bind (.forIn fun item _ _ => ?_) fun _ _ => ?_
  · exact (hr.ensureCanCreate r.target (.object item)).bind fun _ _ => .ok
  refine (hr.canCreate r.target .null).bind fun canCreate _ => ?_
  have hkeys : ∀ kind ≠ .create, ∀ item ∈ prepared.filter fun item => itemKind keys joinKey item == kind,
      joinKey = none → ∀ k ∈ keys, k ∈ item.keys := by
    intro kind hne item hitem
    have hkind : itemKind keys joinKey item = kind := by simpa using (List.mem_filter.mp hitem).2
    exact itemKind_keyed (hkind ▸ hne)
  refine FailsOnly.bind (.mapM fun item hitem => ?_) fun connects _ => ?_
  · exact (itemWhere_refusing (hkeys .connect (by decide) item hitem)).bind fun _ _ =>
      (guarded_refusing hr).bind fun _ _ => .ok
  refine FailsOnly.bind (upsertEntries_refusing hr hs ht (hkeys .upsert (by decide))) fun upserts _ => ?_
  exact (createBodies_refusing hr hs ht).bind fun creates _ => .ok

include hn in
theorem updateOne_fails : RefusingUnless (v.isObject = false) (w.updateOne nesting r v) := by
  unfold updateOne
  split
  · exact .ok
  · refine (hr.ensureCanCreate r.target v).weaken.bind fun _ _ => ?_
    refine (hr.omitted r.target).weaken.bind fun omitted _ => ?_
    split
    next given =>
      refine FailsOnly.weaken ((checkedItem_refusing ht).bind fun members _ => ?_)
      refine (updateItem_refusing hs hn ht).bind fun processed _ => ?_
      refine (linkForeignKeys_refusing hr hs ht).bind fun whole _ => ?_
      refine FailsOnly.bind (FailsOnly.of_ok ht).map fun keys _ => ?_
      exact (linkForeignKeys_refusing hr hs ht).bind fun changes _ => .ok
    next hgiven =>
      refine .error (.inr ⟨rfl, ?_⟩)
      cases v with
      | object members => exact absurd rfl (hgiven members)
      | _ => rfl

end

theorem updateNested_fails (levels : Nat) {parent : Value} {target : Entity}
    (ht : w.view.schema.entity r.target = .ok target) : RefusingUnless v.Flat (w.updateNested levels parent r v) := by
  induction levels generalizing r target v parent with
  | zero => exact .error (.inl rfl)
  | succ levels ih =>
      have hn : ∀ r v, (∃ target, w.view.schema.entity r.target = .ok target) → v.nests = true →
          Refusing (w.updateNested levels .null r v) :=
        fun r v ⟨_, ht⟩ hv => (ih ht).refusing (Value.not_flat_of_nests hv)
      rw [updateNested]
      dsimp only
      split
      · exact (updateMany_refusing hr hs hn ht).map.weaken
      next hlist => exact (updateOne_fails hr hs hn ht).imp_odd fun hobject => ⟨hobject, Value.not_isList hlist⟩

/-! ## Records themselves -/

omit hr hs in
theorem topStep_fails {nest link : Relation → Except Failure Object} {odd : Prop}
    (hnest : ∀ r, ¬ e.IsScalar key → e.relation? key = some r → v.isPresent = true → RefusingUnless odd (nest r))
    (hlink : ∀ r, e.relationForField? key = some r → Refusing (link r)) :
    RefusingUnless odd (topStep e key v body nest link) := by
  unfold topStep
  split
  next hfield =>
    have hscalar : ¬ e.IsScalar key := by simpa [Entity.IsScalar] using hfield
    split
    · exact .error (.inl rfl)
    next r hrel =>
      split
      next hv => exact hnest r hscalar hrel hv
      next => exact .ok
  · split
    · exact .ok
    next r hf => exact (hlink r hf).weaken

variable (he : w.view.schema.entity entity = .ok e) {kind : BodyKind} {step : Object → String → Except Failure Object}
  (ht : w.TopStep e kind step)
include he ht

theorem TopStep.fails : RefusingUnless (e.Misshapes (key, body.get key)) (step body key) := by
  have hodd : ∀ {r}, ¬ e.IsScalar key → e.relation? key = some r → (body.get key).isPresent = true →
      (body.get key).Flat → e.Misshapes (key, body.get key) :=
    fun hscalar hrel hv hflat => ⟨hscalar, by rw [hrel]; rfl, hv, hflat⟩
  have htarget : ∀ {r}, e.relation? key = some r → ∃ target, w.view.schema.entity r.target = .ok target :=
    fun hrel => hs entity e he _ (List.mem_of_find?_eq_some hrel)
  cases ht with
  | created =>
      refine topStep_fails (fun r hscalar hrel hv => ?_) fun r hf => ?_
      · obtain ⟨target, ht⟩ := htarget hrel
        exact ((createNested_fails hr hs w.levels ht).imp_odd (hodd hscalar hrel hv)).bind fun _ _ => .ok
      · dsimp only
        split
        · exact .ok
        · exact (connect_foreign_refusing hr hs he hf).bind fun _ _ => .ok
  | changed id =>
      refine topStep_fails (fun r hscalar hrel hv => ?_) fun r hf => ?_
      · obtain ⟨target, ht⟩ := htarget hrel
        refine ((updateNested_fails hr hs w.levels ht).imp_odd (hodd hscalar hrel hv)).bind fun ops _ => ?_
        cases ops <;> exact .ok
      · dsimp only
        split
        · exact .ok
        · exact (connect_foreign_refusing hr hs he hf).bind fun _ _ => .ok

/-- The steps find what was given, and operations, which have the shape of records. -/
theorem TopStep.run_fails :
    RefusingUnless (∃ kv ∈ body, e.Misshapes kv) (body.keys.foldlM step body) := by
  refine .foldlM (I := fun state => ∀ kv ∈ state, kv ∈ body ∨ ¬ kv.2.Flat) (fun kv hkv => .inl hkv)
    (fun key _ state hstate => ?_) fun {key state next} _ hstate hstep kv hkv => ?_
  · refine (ht.fails hr hs he).imp_odd fun hodd => ?_
    have hin : (key, state.get key) ∈ state := Object.mem_of_get_ne_null fun hnull => by
      rw [Entity.Misshapes, hnull] at hodd
      cases hodd.2.2.1
    exact ⟨_, (hstate _ hin).resolve_right fun hflat => hflat hodd.2.2.2, hodd⟩
  · obtain ⟨nest, htreats, hturned⟩ := ht.treats hstep
    have hops : ∀ {ops}, ops = .object [] ∨ Payload.isOperation ops = true → ¬ ops.Flat := by
      rintro ops hops ⟨hobject, -⟩
      rcases hops with rfl | hop
      · cases hobject
      · cases ops with
        | object _ => cases hobject
        | _ => cases hop
    cases htreats with
    | kept => exact hstate kv hkv
    | nested _ _ hnest =>
        rcases Object.mem_of_mem_set hkv with rfl | hin
        · exact .inr (hops (hturned _ _ _ hnest))
        · exact hstate kv hin
    | erased => exact hstate kv (Object.mem_of_mem_erase hkv)
    | linked _ _ _ hc =>
        obtain ⟨_, filter, _, rfl⟩ := connect_guarded hc
        rcases Object.mem_of_mem_set hkv with rfl | hin
        · exact .inr (hops (.inr rfl))
        · exact hstate kv (Object.mem_of_mem_erase hin)
    | cut =>
        rcases Object.mem_of_mem_set hkv with rfl | hin
        · exact .inr (hops (.inr rfl))
        · exact hstate kv (Object.mem_of_mem_erase hin)

end

/-- Over a schema whose relations lead somewhere, and under rules that answer, every payload is transformed or refused,
as a new record and as changes to one, unless a member of the record itself that the writer is to write gives a relation
something that is neither a record nor a list. -/
theorem misshapen_or_refused (w : Writer) (hs : w.view.schema.Linked) (hr : w.view.rules.Answer) {entity : String}
    {e : Entity} (he : w.view.schema.entity entity = .ok e) (id : Value) (payload : Object) :
    RefusingUnless (∃ body, w.strip entity payload = .ok body ∧ ∃ kv ∈ body, e.Misshapes kv)
      (w.create entity payload) ∧
    RefusingUnless (∃ body, w.strip entity payload = .ok body ∧ ∃ kv ∈ body.without e.keys, e.Misshapes kv)
      (w.update entity id payload) := by
  have hstrip : ∀ {odd}, RefusingUnless odd (w.strip entity payload) :=
    ((hr.omitted entity).bind fun omitted _ => .ok).weaken
  constructor
  · refine hstrip.bind fun body hbody => ?_
    refine (FailsOnly.of_ok he).bind fun e' he' => ?_
    cases he.symm.trans he'
    exact (TopStep.created.run_fails hr hs he).imp_odd fun hodd => ⟨body, hbody, hodd⟩
  · refine hstrip.bind fun body hbody => ?_
    refine FailsOnly.bind (FailsOnly.of_ok he).map fun keys hkeys => ?_
    obtain ⟨e', he', rfl⟩ := map_ok_iff.mp hkeys
    cases he.symm.trans he'
    refine (FailsOnly.of_ok he).bind fun e' he' => ?_
    cases he.symm.trans he'
    exact ((TopStep.changed id).run_fails hr hs he).imp_odd fun hodd => ⟨body, hbody, hodd⟩

/-! The author of a post of a forum, and of its comments, given in the wrong shape. -/

theorem forumSchema_linked : forumSchema.Linked := Schema.linked_of_all (by decide)

theorem forumRules_answer : forumWriter.view.rules.Answer := by
  refine Rules.answer_of_all fun kv hin => ?_
  obtain rfl := List.mem_singleton.mp hin
  refine ⟨fun action ask hask p => ?_, nofun, nofun, nofun⟩
  cases action with
  | update => cases hask; exact .ok
  | read | delete => cases hask

/-- An author in place of a comment's author, in a list; and a text among the comments. -/
def oddComments : Object :=
  [("comments", .list [.object [("author", .list [.int 3])], .text "odd"])]

/-- A number in place of the author. -/
def numberedAuthor : Object := [("author", .int 5)]

/-- A payload that is misshapen further down is refused. -/
theorem oddComments_refused :
    forumSchema.Linked ∧ forumWriter.view.rules.Answer ∧ (∃ e, forumSchema.entity "Post" = .ok e ∧
      RefusingUnless (∃ body, forumWriter.strip "Post" oddComments = .ok body ∧ ∃ kv ∈ body, e.Misshapes kv)
        (forumWriter.create "Post" oddComments) ∧
      RefusingUnless (∃ body, forumWriter.strip "Post" oddComments = .ok body ∧
        ∃ kv ∈ body.without e.keys, e.Misshapes kv) (forumWriter.update "Post" (.int 1) oddComments)) ∧
    forumWriter.create "Post" oddComments = .error (unexpectedKey "comments.author") ∧
    forumWriter.update "Post" (.int 1) oddComments = .error (unexpectedKey "author") :=
  ⟨forumSchema_linked, forumRules_answer,
    ⟨_, rfl, misshapen_or_refused forumWriter forumSchema_linked forumRules_answer rfl (.int 1) oddComments⟩, rfl, rfl⟩

/-- A post whose author is given as a number is neither written nor refused. -/
theorem numberedAuthor_unrefused :
    forumSchema.Linked ∧ forumWriter.view.rules.Answer ∧
    forumWriter.create "Post" numberedAuthor = .error .illFormed ∧
    forumWriter.update "Post" (.int 1) numberedAuthor = .error .illFormed ∧
    ¬ Refusing (forumWriter.create "Post" numberedAuthor) ∧
    ¬ Refusing (forumWriter.update "Post" (.int 1) numberedAuthor) :=
  ⟨forumSchema_linked, forumRules_answer, rfl, rfl, fun h => (nomatch h _ rfl), fun h => (nomatch h _ rfl)⟩

end Writer

end RecordGraph
