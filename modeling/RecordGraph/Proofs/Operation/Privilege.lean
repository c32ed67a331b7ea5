import RecordGraph.Proofs.Access.Concurrence
import RecordGraph.Proofs.Operation.Refusals

/-!
# The system's privilege

Rules bear on an operation only through what they answer about its user. The system is asked nothing,
so that its operations are the same under all rules; every principal is bound by them.
-/

namespace RecordGraph

/-- The rule of an entity answers for a principal. -/
structure Rules.Binds (rs : Rules) (entity : String) (p : Principal) : Prop where
  decide : ∀ r action ask, rs.get? entity = some r → action.ask r = some ask →
    rs.decide action entity (.principal p) = (ask p).map Decision.ofAnswer
  canCreate : ∀ r ask payload, rs.get? entity = some r → r.mayCreate = some ask →
    rs.canCreate entity (.principal p) payload = (ask p payload).map Value.isPresent
  omitted : ∀ r ask names, rs.get? entity = some r → r.omitted = some ask → ask p = .ok (.texts names) →
    rs.omitted entity (.principal p) = .ok names

theorem Rules.binds_principal (rs : Rules) (entity : String) (p : Principal) : rs.Binds entity p where
  decide r action ask hr ha := by
    simp only [Rules.decide, hr, Option.bind_some, ha]
  canCreate r ask payload hr ha := by
    simp only [Rules.canCreate, hr, Option.bind_some, ha]
  omitted r ask names hr ha hn := by
    simp only [Rules.omitted, hr, Option.bind_some, ha, hn, Value.texts]
    have hnames : names.mapM (fun name => (pure name : Except Failure String)) = .ok names := by
      rw [List.mapM_pure, List.map_id']
      rfl
    exact List.mapM_map.trans hnames

namespace Engine

variable {σ : Type}

/-- The engine under other rules. -/
def under (e : Engine σ) (rs : Rules) : Engine σ := { e with rules := rs }

section Under

variable {α : Type} (e : Engine σ) (rs : Rules)

@[simp] theorem schema_under : (e.under rs).schema = e.schema := rfl

@[simp] theorem storage_under : (e.under rs).storage = e.storage := rfl

@[simp] theorem rules_under : (e.under rs).rules = rs := rfl

@[simp] theorem settings_under : (e.under rs).settings = e.settings := rfl

@[simp] theorem viewpoint_under (user : User) : (e.under rs).viewpoint user = ⟨e.schema, rs, user⟩ := rfl

@[simp] theorem writer_under (user : User) : (e.under rs).writer user =
    ⟨⟨e.schema, rs, user⟩, e.settings.auditFields, e.settings.maxNestingDepth⟩ := rfl

@[simp] theorem pageSize_under : (e.under rs).pageSize = e.pageSize := rfl

@[simp] theorem sortPath_under : (e.under rs).sortPath = e.sortPath := rfl

@[simp] theorem keySelection_under : (e.under rs).keySelection = e.keySelection := rfl

@[simp] theorem uniqueKeyFor_under : (e.under rs).uniqueKeyFor = e.uniqueKeyFor := rfl

@[simp] theorem runHooks_under : (e.under rs).runHooks = e.runHooks := rfl

@[simp] theorem ask_under : ((e.under rs).ask : Object → Act σ α → Act σ α) = e.ask := rfl

@[simp] theorem createRows_under : (e.under rs).createRows = e.createRows := rfl

@[simp] theorem updateRows_under : (e.under rs).updateRows = e.updateRows := rfl

end Under

/-! ## Rules that concur -/

section Concur

variable {e : Engine σ} {rs rs' : Rules} {user : User} (h : rs.Concur rs' user) (entity : String)

include h

theorem readFilter_concur : (e.under rs).readFilter entity user = (e.under rs').readFilter entity user := by
  funext query
  simp only [readFilter, Rules.readWhere, schema_under, rules_under, h.filterFor]

theorem selection_concur : (e.under rs).selection entity user = (e.under rs').selection entity user := by
  funext includes fields
  simp only [selection, viewpoint_under, settings_under, h.compile]

theorem getMany_concur : (e.under rs).getMany entity user = (e.under rs').getMany entity user := by
  funext request
  simp only [getMany, listPlan, pageSize_under, sortPath_under, runHooks_under, ask_under, storage_under,
    readFilter_concur h, selection_concur h]

theorem get_concur : (e.under rs).get entity user = (e.under rs').get entity user := by
  funext request
  simp only [get, runHooks_under, ask_under, storage_under, schema_under, viewpoint_under, keySelection_under,
    h.viewFilterFor, selection_concur h]

theorem count_concur : (e.under rs).count entity user = (e.under rs').count entity user := by
  funext query
  simp only [count, runHooks_under, ask_under, storage_under, readFilter_concur h]

theorem create_concur : (e.under rs).create entity user = (e.under rs').create entity user := by
  funext data
  simp only [create, writePlan, viewpoint_under, writer_under, runHooks_under, ask_under, storage_under,
    h.viewEnsureCanCreate, h.create, selection_concur h]

theorem update_concur : (e.under rs).update entity user = (e.under rs').update entity user := by
  funext id data
  simp only [update, writePlan, viewpoint_under, writer_under, runHooks_under, ask_under, storage_under,
    schema_under, settings_under, h.viewFilterFor, h.update, selection_concur h]

theorem upsert_concur : (e.under rs).upsert entity user = (e.under rs').upsert entity user := by
  funext data uniqueKey
  simp only [upsert, writePlan, viewpoint_under, writer_under, runHooks_under, ask_under, storage_under,
    uniqueKeyFor_under, h.viewEnsureCanCreate, h.viewFilterFor, h.create, h.update, selection_concur h]

theorem delete_concur : (e.under rs).delete entity user = (e.under rs').delete entity user := by
  funext id
  simp only [delete, scalarSelection, viewpoint_under, runHooks_under, ask_under, storage_under, schema_under,
    h.viewFilterFor, h.omission]

theorem upsertMany_concur : (e.under rs).upsertMany entity user = (e.under rs').upsertMany entity user := by
  funext request
  have hsort : (e.under rs).sortRow entity user = (e.under rs').sortRow entity user := by
    funext key followRelations existing sorted row
    simp only [sortRow, viewpoint_under, writer_under, h.update, h.create, h.strip, h.viewCanCreate]
  have hrows tx : (e.under rs).upsertRows tx entity user = (e.under rs').upsertRows tx entity user := by
    funext permission key followRelations rows
    simp only [upsertRows, createRows_under, updateRows_under, hsort]
  simp only [upsertMany, viewpoint_under, uniqueKeyFor_under, runHooks_under, ask_under, storage_under,
    settings_under, h.viewFilterFor, hrows]

/-- An operation is the same under rules that concur on its user. -/
theorem operate_concur (op : Operation) :
    (e.under rs).operate entity user op = (e.under rs').operate entity user op := by
  cases op with
  | getMany request => exact congrFun (getMany_concur h entity) request
  | get request => exact congrFun (get_concur h entity) request
  | count query => exact congrFun (count_concur h entity) query
  | create data => exact congrFun (create_concur h entity) data
  | write w =>
      cases w with
      | update id data => exact congrFun₂ (update_concur h entity) id data
      | upsert data uniqueKey => exact congrFun₂ (upsert_concur h entity) data uniqueKey
      | delete id => exact congrFun (delete_concur h entity) id
  | upsertMany request => exact congrFun (upsertMany_concur h entity) request

end Concur

/-! ## Rules that are closed to principals -/

/-- Rules that open an entity to no principal at all. -/
def closedRules (entity : String) : Rules := ⟨[(entity, {
  mayCreate := some fun _ _ => .ok (.bool false)
  readable := some fun _ => .ok (.bool false)
  updatable := some fun _ => .ok (.bool false)
  deletable := some fun _ => .ok (.bool false) })]⟩

/-- Hooks are all that happens. -/
def Uncalled {α : Type} (events : List Event) (_ : Except Failure α) : Prop :=
  ∀ event ∈ events, ∃ stage outcome, event = .hooked stage outcome

section Closed

variable {α : Type} {b : Backend σ} {schema : Schema} {hooks : Registry σ} {settings : Settings}
  {entity operation : String} {p : Principal} {context : HookContext → HookContext}

theorem closedRules_decide (action : Action) :
    (closedRules entity).decide action entity (.principal p) = .ok .deny := by
  cases action <;> simp [closedRules, Rules.decide, Rules.get?, Action.ask] <;> rfl

theorem closedRules_filterFor {action : Action} {filter : Object} :
    (closedRules entity).filterFor action entity (.principal p) ≠ .ok filter := by
  intro h
  rw [Rules.filterFor, closedRules_decide] at h
  cases h

theorem closedRules_ensureCanCreate {payload : Value} :
    (closedRules entity).ensureCanCreate entity (.principal p) payload ≠ .ok () := by
  have hno : (closedRules entity).canCreate entity (.principal p) payload = .ok false := by
    simp [closedRules, Rules.canCreate, Rules.get?]
    rfl
  intro h
  rw [Rules.ensureCanCreate, hno] at h
  cases h

theorem uncalled_pure {a : α} : (pure a : Act (Traced σ) α).Logs Traced.events Uncalled :=
  Act.logs_pure (by simp [Uncalled])

theorem uncalled_ofExcept_bind {x : Except Failure α} {f : α → Act (Traced σ) Outcome}
    (hf : ∀ a, x = .ok a → (f a).Logs Traced.events Uncalled) :
    (Act.ofExcept x >>= f).Logs Traced.events Uncalled :=
  Act.logs_ofExcept_bind (by simp [Uncalled]) hf

/-- The hooks before the work end an operation, or the work follows. -/
theorem uncalled_hooks {rules : Rules} {user : User} {ended : HookContext → Outcome}
    {work : HookContext → Act (Traced σ) Outcome} (hwork : ∀ before, (work before).Logs Traced.events Uncalled) :
    ((traced b schema rules hooks settings).runHooks "before" operation entity user context >>= fun before =>
      if before.abort.isPresent then pure (ended before) else work before).Logs Traced.events Uncalled := by
  have hhooked {events : List Event} {out : Except Failure HookContext}
      (h : Registry.ChainTraced "before" events out) : Uncalled events out :=
    fun event hin => ⟨"before", h.hooks event hin⟩
  apply Registry.execute_traced.bind
  · intro events failure hchain
    exact hhooked hchain
  · intro events before hchain
    split
    · apply Act.logs_pure
      rw [List.append_nil]
      exact hhooked hchain
    · apply (hwork before).mono
      intro more out hmore
      exact List.forall_mem_append.mpr ⟨hhooked hchain, hmore⟩

/-- No filter is made for a principal to whom an entity is closed. -/
theorem closedRules_readFilter {e : Engine σ} (he : e.rules = closedRules entity) {query : Value}
    {filter : Object} : e.readFilter entity (.principal p) query ≠ .ok filter := by
  have hread {own : Object} : e.rules.readWhere entity (.principal p) own ≠ .ok filter := by
    intro h
    obtain ⟨_, h, _⟩ := bind_ok_iff.mp h
    rw [he] at h
    exact closedRules_filterFor h
  unfold readFilter
  split
  · exact hread
  · intro h
    obtain ⟨_, _, h⟩ := bind_ok_iff.mp h
    exact hread h
  · exact hread

/-- An operation of a principal on a closed entity calls the storage for nothing. -/
theorem closedRules_uncalled (op : Operation) :
    ((traced b schema (closedRules entity) hooks settings).operate entity (.principal p) op).Logs
      Traced.events Uncalled := by
  cases op with
  | getMany request =>
      rw [operate, getMany]
      apply uncalled_ofExcept_bind
      intro take _
      apply uncalled_ofExcept_bind
      intro path _
      apply uncalled_ofExcept_bind
      intro options _
      apply uncalled_hooks
      intro before
      apply uncalled_ofExcept_bind
      intro plan hplan
      obtain ⟨_, _, hplan⟩ := bind_ok_iff.mp hplan
      obtain ⟨_, hfilter, _⟩ := bind_ok_iff.mp hplan
      exact absurd hfilter (closedRules_readFilter rfl)
  | get request =>
      rw [operate, get_eq]
      apply uncalled_ofExcept_bind
      intro options _
      apply uncalled_hooks
      intro before
      apply uncalled_ofExcept_bind
      intro probes hprobes
      obtain ⟨_, _, hprobes⟩ := bind_ok_iff.mp hprobes
      obtain ⟨_, _, hprobes⟩ := bind_ok_iff.mp hprobes
      obtain ⟨_, _, hprobes⟩ := bind_ok_iff.mp hprobes
      obtain ⟨_, hpermission, _⟩ := bind_ok_iff.mp hprobes
      exact absurd hpermission closedRules_filterFor
  | count query =>
      rw [operate, count]
      apply uncalled_hooks
      intro before
      apply uncalled_ofExcept_bind
      intro filter hfilter
      exact absurd hfilter (closedRules_readFilter rfl)
  | create data =>
      rw [operate, create]
      apply uncalled_ofExcept_bind
      intro _ hallowed
      exact absurd hallowed closedRules_ensureCanCreate
  | write w =>
      rw [operate, write_eq]
      apply uncalled_ofExcept_bind
      intro start hstart
      exact absurd (start_permission hstart) closedRules_filterFor
  | upsertMany request =>
      rw [operate, upsertMany]
      split
      · exact uncalled_pure
      apply uncalled_ofExcept_bind
      intro permission hpermission
      exact absurd hpermission closedRules_filterFor

end Closed

/-- Under all rules the operations of the system are the same, with the same calls of the storage in the
same order, and come to the same. No principal is the system: the rules answer for everyone, and where
they are closed, no operation calls the storage at all. -/
theorem system_privileged (schema : Schema) (hooks : Registry σ) (settings : Settings) (entity : String)
    (op : Operation) :
    (∀ (storage : Storage σ) (rs rs' : Rules),
      (⟨schema, storage, rs, hooks, settings⟩ : Engine σ).operate entity .system op =
        (⟨schema, storage, rs', hooks, settings⟩ : Engine σ).operate entity .system op) ∧
    (∀ (b : Backend σ) (rs rs' : Rules) (s : σ), trace b schema rs hooks settings entity .system op s =
      trace b schema rs' hooks settings entity .system op s) ∧
    ∀ p : Principal, (User.principal p).isSystem = false ∧ (∀ rs : Rules, rs.Binds entity p) ∧
      ∀ (b : Backend σ) (s : σ),
        ∀ event ∈ trace b schema (closedRules entity) hooks settings entity (.principal p) op s,
          ∃ stage outcome, event = .hooked stage outcome := by
  refine ⟨fun storage rs rs' => ?_, fun b rs rs' s => ?_, fun p => ⟨rfl, fun rs => ?_, fun b s => ?_⟩⟩
  · exact operate_concur (e := ⟨schema, storage, rs, hooks, settings⟩) (rs.concur_system rs') entity op
  · have hsame : (traced b schema rs hooks settings).operate entity .system op =
        (traced b schema rs' hooks settings).operate entity .system op :=
      operate_concur (e := traced b schema rs hooks settings) (rs.concur_system rs') entity op
    rw [trace, hsame, trace]
  · exact rs.binds_principal entity p
  · have hlogs : ((traced b schema (closedRules entity) hooks settings).operate entity (.principal p) op).Logs
        Traced.events Uncalled := closedRules_uncalled op
    obtain ⟨added, hadded, hhooked⟩ := hlogs ⟨s, []⟩
    rw [trace, hadded]
    exact hhooked

end Engine

end RecordGraph
