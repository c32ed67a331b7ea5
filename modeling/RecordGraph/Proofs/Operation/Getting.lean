import RecordGraph.Operation.Read
import RecordGraph.Proofs.Access.Conjunction
import RecordGraph.Proofs.Hook.Spots
import RecordGraph.Proofs.Operation.Running
import RecordGraph.Proofs.Relational.Keys
import RecordGraph.Proofs.Relational.Retrieval

/-!
# Getting one record

A record is looked for twice, in the shape that was asked for and by its key among what the user may
read, and the two are compared by their keys. So the shape has to show the key: then the record comes
back exactly if there is one and the user may read it.
-/

namespace RecordGraph

theorem Key.agree_of_columns {keys : List String} {a b : Object} (hne : keys ≠ [])
    (h : ∀ k ∈ keys, Object.get a k = Object.get b k ∧ (Object.get b k).isNull = false) :
    agree keys a b = true := by
  have hsome {o : Object} {k : String} (hnull : (Object.get o k).isNull = false) : o.isEmpty = false := by
    cases o with
    | nil => cases hnull
    | cons => rfl
  obtain ⟨k, hk⟩ := List.exists_mem_of_ne_nil keys hne
  obtain ⟨hget, hnull⟩ := h k hk
  rw [agree, hsome hnull, hsome (hget ▸ hnull)]
  simp only [Bool.not_false, Bool.true_and, List.all_eq_true]
  intro k hk
  obtain ⟨hget, hnull⟩ := h k hk
  rw [hget, hnull, Bool.not_false, Bool.true_and, beq_self_eq_true]

theorem Key.not_agree {keys : List String} {a b : Object} {k : String} (hk : k ∈ keys)
    (hb : Object.get b k = .null) (ha : a = [] ∨ (Object.get a k).shown ≠ Value.null.shown) :
    agree keys a b = false := by
  rcases ha with rfl | ha
  · rfl
  · refine Bool.eq_false_iff.mpr fun h => ha ?_
    simp only [agree, Bool.and_eq_true, List.all_eq_true, beq_iff_eq] at h
    rw [(h.2 k hk).2, hb]

namespace Engine

variable {σ : Type} {e : Engine σ} {entity stage operation : String} {user : User} {s : σ}

theorem runHooks_none (h : e.hooks.entries = []) {context : HookContext → HookContext} :
    (e.runHooks stage operation entity user context).runOn s =
      (.ok (context { entity, operation, stage, user := some user }), s) := by
  rw [runHooks, Registry.execute, Registry.handlers_none h]
  rfl

/-- What is made of the two look-ups. -/
def verdict (entity : String) (keys : List String) (found permitted : Option Object) : Except Failure Outcome :=
  match found with
  | none | some [] => .error (.request (.notFound "record_not_found" entity))
  | some record =>
    if Key.agree keys (permitted.getD []) record then .ok (.value (.object record))
    else .error (.access "no_permission" entity)

theorem verdict_ok {keys : List String} {found permitted : Option Object} {outcome : Outcome}
    (h : verdict entity keys found permitted = .ok outcome) :
    ∃ record, found = some record ∧ outcome = .value (.object record) ∧
      Key.agree keys (permitted.getD []) record = true := by
  rcases found with _ | _ | ⟨first, rest⟩
  · cases h
  · cases h
  · simp only [verdict] at h
    split at h
    · cases h
      exact ⟨_, rfl, rfl, ‹_›⟩
    · cases h

/-- The plan of a request, given what its options omit besides. -/
def requestPlan (shape : Plan) (condition extra : Object) : Plan :=
  { shape with
    filter := condition
    omits := if extra.isEmpty then shape.omits else some (Object.update (shape.omits.getD []) extra) }

/-- What the options of a request omit besides; with a selection, nothing. -/
def extraFor (shape : Plan) (options : Value) : Except Failure Object :=
  if shape.selects.isNone then extraOmission options
  else match options with
    | .object _ => pure []
    | _ => throw .illFormed

/-! ## Stages -/

/-- The look-ups of a request, with the names of the keys by which their answers are compared. -/
structure Probes where
  plan : Plan
  probe : Plan
  keys : List String

section Stages

variable (e : Engine σ) (entity : String) (user : User)

/-- Reads what the hooks left. -/
def probes (r : GetRequest) (before : HookContext) : Except Failure Probes := do
  let condition ← Key.whereId e.schema entity (given r.id before.id)
  let shape ← e.selection entity user before.includes before.fields
  let extra ← extraFor shape before.options
  let permission ← (e.viewpoint user).filterFor .read entity
  let keys ← e.schema.keys entity
  let selects := Object.ofMembers (keys.map fun k => (k, .bool true))
  return { plan := requestPlan shape condition extra, keys
           probe := { filter := Guard.merge condition permission, selects := some selects } }

def lookUp (p : Probes) : Act σ (Option Object × Option Object) := do
  let found ← (e.storage.findUnique entity p.plan).attempt
  let permitted ← (e.storage.findUnique entity p.probe).attempt
  return (← (found : Except _ _), ← (permitted : Except _ _))

theorem get_eq (r : GetRequest) : e.get entity user r = (do
    let options ← (optionsOf r.options : Except Failure Value)
    let before ← e.runHooks "before" "get" entity user fun c =>
      { c with id := r.id, includes := r.includes, fields := r.fields, options }
    if before.abort.isPresent then return before.outcome
    let p ← (e.probes entity user r before : Except Failure Probes)
    let (found, permitted) ← e.ask [] (e.lookUp entity p)
    let result ← (verdict entity p.keys found permitted : Except Failure Outcome)
    let after ← e.runHooks "after" "get" entity user fun c =>
      { c with id := given r.id before.id, outcome := result }
    return after.outcome.orElse result) := by
  have hok {α : Type} {a : α} : (liftM (Except.ok a : Except Failure α) : Act σ α) = pure a := rfl
  unfold get
  simp only [probes, keySelection, Act.liftM_bind, Act.liftM_pure, bind_assoc, pure_bind]
  congr 1; funext options
  congr 1; funext before
  split
  · rfl
  congr 1; funext condition
  congr 1; funext shape
  -- With a selection and without one the request goes on alike.
  unfold extraFor
  split
  case' isTrue =>
    congr 1; funext extra
  case' isFalse =>
    cases before.options
    case' object =>
      dsimp only
      rw [Act.liftM_pure, pure_bind]
    case null | bool | int | float | decimal | date | datetime | text | list =>
      dsimp only
      rw [Act.liftM_throw, Act.throw_bind, Act.throw_bind]
  all_goals
    congr 1; funext permission
    cases e.schema.keys entity with
    | error failure => rfl
    | ok keys =>
        simp only [hok, pure_bind]
        congr 1; funext ⟨found, permitted⟩
        rcases found with _ | _ | ⟨first, rest⟩
        · rfl
        · rfl
        · cases hagree : Key.agree keys (permitted.getD []) (first :: rest) <;> simp only [verdict, hagree] <;> rfl

variable {e entity} in
theorem lookUp_ok {p : Probes} {found permitted : Option Object} {t : σ}
    (h : (e.lookUp entity p).runOn s = (.ok (found, permitted), t)) :
    ∃ u, (e.storage.findUnique entity p.plan).runOn s = (.ok found, u) ∧
      (e.storage.findUnique entity p.probe).runOn u = (.ok permitted, t) := by
  simp only [lookUp, Act.runOn_bind_ok_iff, Act.runOn_attempt_ok_iff, Act.runOn_liftM_ok_iff,
    Act.runOn_pure_ok_iff] at h
  obtain ⟨_, u, hfound, _, _, hprobe, _, _, ⟨rfl, rfl⟩, _, _, ⟨rfl, rfl⟩, he, rfl⟩ := h
  cases he
  exact ⟨u, hfound, hprobe⟩

end Stages

theorem get_run (hhooks : e.hooks.entries = []) {id includes fields options opts : Value} {shape : Plan}
    (hoptions : optionsOf options = .ok opts) (hshape : e.selection entity user includes fields = .ok shape)
    {condition extra permission tree : Object} {keys : List String} (hextra : extraFor shape opts = .ok extra)
    (hcond : Key.whereId e.schema entity id = .ok condition)
    (hperm : (e.viewpoint user).filterFor .read entity = .ok permission)
    (htree : e.keySelection entity = .ok tree) (hkeys : e.schema.keys entity = .ok keys)
    {found permitted : Option Object} {t u : σ}
    (hfound : (e.storage.findUnique entity (requestPlan shape condition extra)).runOn s = (.ok found, t))
    (hprobe : (e.storage.findUnique entity
      { filter := Guard.merge condition permission, selects := some tree }).runOn t = (.ok permitted, u)) :
    (e.get entity user { id, includes, fields, options }).runOn s =
      (verdict entity keys found permitted, u) := by
  have hgiven : given id id = id := by unfold given; split <;> rfl
  have htree : tree = Object.ofMembers (keys.map fun k => (k, .bool true)) := by
    rw [keySelection, hkeys] at htree
    exact (Except.ok.inj htree).symm
  subst htree
  let p : Probes :=
    { plan := requestPlan shape condition extra, keys
      probe := { filter := Guard.merge condition permission
                 selects := some (Object.ofMembers (keys.map fun k => (k, .bool true))) } }
  have hlookups : (e.ask [] (e.lookUp entity p)).runOn s = (.ok (found, permitted), u) := by
    simp only [p, ask, lookUp, Act.runOn_tryCatch, Act.runOn_bind, Act.runOn_attempt, hfound, hprobe, Act.runOn_liftM,
      Act.runOn_pure]
  rw [get_eq]
  refine (Act.runOn_bind_of (congrArg (·, s) hoptions)).trans ?_
  refine (Act.runOn_bind_of (runHooks_none hhooks)).trans ?_
  have hprobes : e.probes entity user { id, includes, fields, options }
      { entity, operation := "get", stage := "before", user := some user, id, includes, fields, options := opts } =
        .ok p := by
    simp only [probes, hgiven, bind_ok_iff, pure_ok_iff]
    exact ⟨condition, hcond, shape, hshape, extra, hextra, permission, hperm, keys, hkeys, rfl⟩
  refine (Act.runOn_bind_of (congrArg (·, s) hprobes)).trans ?_
  refine (Act.runOn_bind_of hlookups).trans ?_
  rcases hverdict : verdict entity keys found permitted with failure | result
  · exact Act.runOn_bind_error (congrArg (·, u) hverdict)
  · refine (Act.runOn_bind_of (congrArg (·, u) hverdict)).trans ?_
    refine (Act.runOn_bind_of (runHooks_none hhooks)).trans ?_
    have hself : result.orElse result = result := by unfold Outcome.orElse; split <;> rfl
    exact congrArg (fun outcome => (Except.ok outcome, u)) hself

theorem extraFor_none {shape : Plan} : extraFor shape (.object []) = .ok [] := by
  unfold extraFor
  split <;> rfl

/-- An engine over the storage of a catalog, and an entity whose records are addressed by their key. -/
structure Serves (e : Engine Database) (c : Catalog) (entity : String) (m : Model) (en : Entity) : Prop where
  storage : ∃ clock, e.storage = c.storage clock
  describes : e.schema.Describes c
  model : c.model? entity = some m
  entity : e.schema.entity entity = .ok en
  keys : en.keys = m.keys
  keyed : m.keys ≠ []
  addressed : m.AddressedBy (Key.nameOf en)

/-- A look-up of the keys of the rows that satisfy a filter. -/
def keyPlan (m : Model) (filter : Object) : Plan :=
  { filter, selects := some (Object.ofMembers (m.keys.map fun k => (k, .bool true))) }

section Records

variable {e : Engine Database} {c : Catalog} {m : Model} {en : Entity} {db : Database} {row : Row} {k : String}
  {p : Plan} {record : Object}

theorem Serves.key_column (h : e.Serves c entity m en) (hk : k ∈ m.keys) :
    k ∈ m.columns.map (·.name) ∧ m.link? k = none := by
  obtain ⟨column, hc, rfl⟩ := List.mem_map.mp hk
  have hin := (List.mem_filter.mp hc).1
  exact ⟨List.mem_map.mpr ⟨column, hin, rfl⟩, h.describes.apart h.model column hin⟩

theorem Serves.schema_keys (h : e.Serves c entity m en) : e.schema.keys entity = .ok m.keys := by
  rw [Schema.keys, h.entity, ← h.keys]
  rfl

theorem Serves.keySelection_ok (h : e.Serves c entity m en) :
    e.keySelection entity = .ok (Object.ofMembers (m.keys.map fun k => (k, .bool true))) := by
  rw [keySelection, h.schema_keys]
  rfl

theorem keyPlan_shows {filter : Object} (hk : k ∈ m.keys) : Shape.Shows (keyPlan m filter).shape k := by
  refine (Plan.shows_selected rfl).mpr ⟨.bool true, ?_, rfl⟩
  have hkey : k ∈ Object.keys (Object.ofMembers (m.keys.map fun k => (k, Value.bool true))) :=
    Object.mem_keys_ofMembers.mpr (List.mem_map.mpr ⟨_, List.mem_map.mpr ⟨k, hk, rfl⟩, rfl⟩)
  obtain ⟨⟨name, v⟩, hin, rfl⟩ := List.mem_map.mp hkey
  obtain ⟨_, _, he⟩ := List.mem_map.mp (Object.mem_of_mem_ofMembers hin)
  cases he
  exact hin

theorem Serves.record_key (h : e.Serves c entity m en) (hdb : db.Keyed m) (hrow : row ∈ db.rows m)
    (hrec : c.record db p.levels m p.loads p.shape row = .ok record) (hk : k ∈ m.keys)
    (hshown : Shape.Shows p.shape k) : Object.get record k = Object.get (row.values m) k ∧
      (Object.get (row.values m) k).isNull = false := by
  obtain ⟨hcolumn, hlink⟩ := h.key_column hk
  obtain ⟨kind, hread⟩ : ∃ kind : ColumnKind, Object.get? k (row.values m) = some (kind.read (row.get k)) :=
    Row.get?_values hcolumn
  have hget := (Catalog.record_column hlink hrec).1 hshown
  refine ⟨by rw [Object.get, hget, Object.get], ?_⟩
  rw [Object.get, hread]
  exact Row.read_ne_null (hdb.filled row (Database.mem_rows.mp hrow) k hk)

theorem Serves.record_ne_nil (h : e.Serves c entity m en) (hdb : db.Keyed m) (hrow : row ∈ db.rows m)
    (hrec : c.record db p.levels m p.loads p.shape row = .ok record)
    (hshown : ∀ k ∈ m.keys, Shape.Shows p.shape k) : record ≠ [] := by
  obtain ⟨k, hk⟩ := List.exists_mem_of_ne_nil _ h.keyed
  obtain ⟨hget, hnull⟩ := h.record_key hdb hrow hrec hk (hshown k hk)
  rintro rfl
  rw [← hget] at hnull
  cases hnull

end Records

section Outcome

variable {e : Engine Database} {c : Catalog} {m : Model} {en : Entity} {db : Database} {text : String}
  {id v includes fields : Value} {condition permission : Object} {shape p q : Plan} {found permitted : Option Object}

/-- What two look-ups by a key find, one of them among the rows that satisfy a filter as well: nothing, or
the records of the one row of the key. -/
theorem Serves.lookups (h : e.Serves c entity m en) (hdb : db.Keyed m) (hv : m.IsKey v)
    (hn : permission.keys.Nodup) (ha : Guard.Alike c m [(Key.nameOf en, v)] permission)
    (hp : p.order = none) (hpf : p.filter = [(Key.nameOf en, v)]) (hq : q.order = none)
    (hqf : q.filter = Guard.merge [(Key.nameOf en, v)] permission)
    (hfound : (e.storage.findUnique entity p).runOn db = (.ok found, db))
    (hprobe : (e.storage.findUnique entity q).runOn db = (.ok permitted, db)) :
    (found = none ∧ ∀ row ∈ db.rows m, ¬ c.Satisfies m db row (.object [(Key.nameOf en, v)])) ∨
    ∃ row ∈ db.rows m, c.Satisfies m db row (.object [(Key.nameOf en, v)]) ∧
      (∀ other ∈ db.rows m, c.Satisfies m db other (.object [(Key.nameOf en, v)]) → other = row) ∧
      ∃ record, found = some record ∧ c.record db p.levels m p.loads p.shape row = .ok record ∧
        (permitted = none ∧ ¬ c.Satisfies m db row (.object permission) ∨
          c.Satisfies m db row (.object permission) ∧
            ∃ other, permitted = some other ∧ c.record db q.levels m q.loads q.shape row = .ok other) := by
  have hmerge (row : Row) : c.Satisfies m db row (.object (Guard.merge [(Key.nameOf en, v)] permission)) ↔
      c.Satisfies m db row (.object [(Key.nameOf en, v)]) ∧ c.Satisfies m db row (.object permission) :=
    Guard.merge_satisfies_iff (by simp [Object.keys]) hn ha
  obtain ⟨clock, hstore⟩ := h.storage
  rw [hstore] at hfound hprobe
  have hfirst := Catalog.findUnique_cases h.model (Query.transaction_ok hfound) hp
  have hsecond := Catalog.findUnique_cases h.model (Query.transaction_ok hprobe) hq
  rw [hpf] at hfirst
  rw [hqf] at hsecond
  rcases hfirst with hnone | ⟨row, hrow, hsat, record, rfl, hrecord⟩
  · exact .inl hnone
  · have hone : ∀ other ∈ db.rows m, c.Satisfies m db other (.object [(Key.nameOf en, v)]) → other = row :=
      fun other hother hsat' => Catalog.key_unique hdb h.addressed hv hother hrow hsat' hsat
    refine .inr ⟨row, hrow, hsat, hone, record, rfl, hrecord, ?_⟩
    rcases hsecond with ⟨rfl, hnone⟩ | ⟨other, hother, hboth, shown, rfl, hshown⟩
    · exact .inl ⟨rfl, fun hsat' => hnone row hrow ((hmerge row).mpr ⟨hsat, hsat'⟩)⟩
    · obtain ⟨hkey, hsat'⟩ := (hmerge other).mp hboth
      obtain rfl := hone other hother hkey
      exact .inr ⟨hsat', shown, rfl, hshown⟩

/-- For a row that the user may not read there is no permission; otherwise its record comes back. -/
theorem Serves.verdict_of_row (h : e.Serves c entity m en) (hdb : db.Keyed m) {row : Row} {record : Object}
    (hrow : row ∈ db.rows m) (hrecord : c.record db p.levels m p.loads p.shape row = .ok record)
    (hp : ∀ k ∈ m.keys, Shape.Shows p.shape k) (hq : ∀ k ∈ m.keys, Shape.Shows q.shape k) :
    verdict entity m.keys (some record) none = .error (.access "no_permission" entity) ∧
    ∀ other, c.record db q.levels m q.loads q.shape row = .ok other →
      verdict entity m.keys (some record) (some other) = .ok (.value (.object record)) := by
  obtain ⟨first, rest, rfl⟩ := List.exists_cons_of_ne_nil (h.record_ne_nil hdb hrow hrecord hp)
  refine ⟨rfl, fun other hother => ?_⟩
  have hagree : Key.agree m.keys other (first :: rest) = true := by
    refine Key.agree_of_columns h.keyed fun k hk => ?_
    obtain ⟨hget, hnull⟩ := h.record_key hdb hrow hrecord hk (hp k hk)
    obtain ⟨hget', _⟩ := h.record_key hdb hrow hother hk (hq k hk)
    rw [hget', hget]
    exact ⟨rfl, hnull⟩
  simp only [verdict, Option.getD_some, hagree, ↓reduceIte]

/-- A record that does not show a column of the key is held back from everyone, unless the key is the text
that stands for an absent value. -/
theorem get_hidden (h : e.Serves c entity m en) (hhooks : e.hooks.entries = []) {k : String} (hk : k ∈ m.keys)
    (hid : Key.whereId e.schema entity id = .ok condition)
    (hperm : (e.viewpoint user).filterFor .read entity = .ok permission)
    (hshape : e.selection entity user includes fields = .ok shape) (hhidden : ¬ Shape.Shows shape.shape k)
    (hnamed : ∀ row ∈ db.rows m, (Object.get (row.values m) k).shown ≠ Value.null.shown)
    (hfound : ∃ found, (e.storage.findUnique entity { shape with filter := condition }).runOn db =
      (.ok found, db))
    (hprobe : ∃ permitted, (e.storage.findUnique entity
      (keyPlan m (Guard.merge condition permission))).runOn db = (.ok permitted, db)) :
    ∃ failure, (e.get entity user { id, includes, fields }).runOn db = (.error failure, db) := by
  obtain ⟨found, hfound⟩ := hfound
  obtain ⟨permitted, hprobe⟩ := hprobe
  rw [get_run hhooks rfl hshape extraFor_none hid hperm h.keySelection_ok h.schema_keys hfound hprobe]
  obtain ⟨clock, hstore⟩ := h.storage
  rw [hstore] at hfound hprobe
  rcases found with _ | _ | ⟨first, rest⟩
  · exact ⟨_, rfl⟩
  · exact ⟨_, rfl⟩
  · obtain ⟨compiled, _, rfl⟩ := map_ok_iff.mp hshape
    have hlink := (h.key_column hk).2
    have hnull : Object.get (first :: rest) k = .null := by
      rcases Catalog.findUnique_cases h.model (Query.transaction_ok hfound) rfl with
        ⟨hnone, _⟩ | ⟨row, _, _, record, he, hrecord⟩
      · cases hnone
      · cases he
        rw [Object.get, (Catalog.record_column hlink hrecord).2 hhidden, Option.getD_none]
    have hagree : Key.agree m.keys (permitted.getD []) (first :: rest) = false := by
      refine Key.not_agree hk hnull ?_
      rcases Catalog.findUnique_cases h.model (Query.transaction_ok hprobe) rfl with
        ⟨rfl, _⟩ | ⟨row, hrow, _, record, rfl, hrecord⟩
      · exact .inl rfl
      · refine .inr ?_
        rw [Option.getD_some, Object.get, (Catalog.record_column hlink hrecord).1 (keyPlan_shows hk)]
        exact hnamed row hrow
    refine ⟨.access "no_permission" entity, ?_⟩
    simp only [verdict, hagree, Bool.false_eq_true, ↓reduceIte]

/-- A request whose shape shows the whole key gets the record exactly if a row of the key satisfies what
the user may read, is refused exactly if one does not, and finds nothing exactly if there is none. -/
theorem get_outcome (h : e.Serves c entity m en) (hhooks : e.hooks.entries = []) (hr : e.rules.Proper)
    (hdb : db.Keyed m) (hid : Key.whereId e.schema entity id = .ok condition) (hw : Key.Whole m id)
    (hperm : (e.viewpoint user).filterFor .read entity = .ok permission) (ha : Guard.Alike c m condition permission)
    (hshape : e.selection entity user includes fields = .ok shape) (ht : Selection.fieldText fields = .ok text)
    (hshown : ∀ k ∈ m.keys, ¬ (e.viewpoint user).Omits entity k ∧
      (trimText text ≠ "" → k ∈ (Selection.parseFields text).1))
    (hfound : ∃ found, (e.storage.findUnique entity { shape with filter := condition }).runOn db =
      (.ok found, db))
    (hprobe : ∃ permitted, (e.storage.findUnique entity
      (keyPlan m (Guard.merge condition permission))).runOn db = (.ok permitted, db)) :
    ∃ answer, (e.get entity user { id, includes, fields }).runOn db = (answer, db) ∧
      ((∃ outcome, answer = .ok outcome) ↔ ∃ row ∈ db.rows m,
        c.Satisfies m db row (.object condition) ∧ c.Satisfies m db row (.object permission)) ∧
      (∀ outcome, answer = .ok outcome → ∃ row ∈ db.rows m, ∃ record, outcome = .value (.object record) ∧
        c.Satisfies m db row (.object condition) ∧ c.Satisfies m db row (.object permission) ∧
        c.record db shape.levels m shape.loads shape.shape row = .ok record) ∧
      (answer = .error (.access "no_permission" entity) ↔ ∃ row ∈ db.rows m,
        c.Satisfies m db row (.object condition) ∧ ¬ c.Satisfies m db row (.object permission)) ∧
      (answer = .error (.request (.notFound "record_not_found" entity)) ↔
        ∀ row ∈ db.rows m, ¬ c.Satisfies m db row (.object condition)) := by
  obtain ⟨found, hfound⟩ := hfound
  obtain ⟨permitted, hprobe⟩ := hprobe
  refine ⟨_, get_run hhooks rfl hshape extraFor_none hid hperm h.keySelection_ok h.schema_keys hfound hprobe, ?_⟩
  obtain ⟨v, rfl, hv⟩ := Key.whereId_ok h.entity h.keys h.keyed hw hid
  obtain ⟨compiled, hcompiled, rfl⟩ := map_ok_iff.mp hshape
  rcases h.lookups hdb hv (Rules.filterFor_nodup hr hperm) ha rfl rfl rfl rfl hfound hprobe with
    ⟨rfl, hnone⟩ | ⟨row, hrow, hsat, hone, record, rfl, hrecord, hcases⟩
  · have hno {P : Row → Prop} :
        ¬ ∃ row ∈ db.rows m, c.Satisfies m db row (.object [(Key.nameOf en, v)]) ∧ P row :=
      fun ⟨row, hrow, hsat, _⟩ => hnone row hrow hsat
    exact ⟨⟨nofun, fun hex => absurd hex hno⟩, nofun, ⟨nofun, fun hex => absurd hex hno⟩, fun _ => hnone,
      fun _ => rfl⟩
  · have hsome : ¬ ∀ row ∈ db.rows m, ¬ c.Satisfies m db row (.object [(Key.nameOf en, v)]) :=
      fun hall => hall row hrow hsat
    obtain ⟨hrefused, hgiven⟩ := h.verdict_of_row hdb hrow hrecord
      (fun k hk => (Selection.compile_shows_iff ht (h.describes.column h.model (h.key_column hk).2) hcompiled
        ⟨rfl, rfl⟩).mpr (hshown k hk))
      (fun k hk => keyPlan_shows hk)
    rcases hcases with ⟨rfl, hfails⟩ | ⟨hsat', other, rfl, hother⟩
    · rw [hrefused]
      refine ⟨⟨nofun, ?_⟩, nofun, ⟨fun _ => ⟨row, hrow, hsat, hfails⟩, fun _ => rfl⟩, nofun,
        fun hall => absurd hall hsome⟩
      rintro ⟨other, hother, hkey, hsat'⟩
      exact absurd (hone other hother hkey ▸ hsat') hfails
    · rw [hgiven other hother]
      refine ⟨⟨fun _ => ⟨row, hrow, hsat, hsat'⟩, fun _ => ⟨_, rfl⟩⟩, ?_, ⟨nofun, ?_⟩, nofun,
        fun hall => absurd hall hsome⟩
      · rintro _ ⟨⟩
        exact ⟨row, hrow, record, rfl, hsat, hsat', hrecord⟩
      · rintro ⟨another, hanother, hkey, hfails⟩
        exact absurd hsat' (hone another hanother hkey ▸ hfails)

end Outcome

/-! Readers of a blog get the comments that were approved. -/

def blogEngine : Engine Database :=
  { schema := Catalog.blogCatalog.schema, storage := Catalog.blogCatalog.storage,
    rules := .reading "Comment" (.object [("approved", .bool true)]) }

def commentModel : Model := (Catalog.blogCatalog.model? "Comment").getD default

theorem blogEngine_serves :
    blogEngine.Serves Catalog.blogCatalog "Comment" commentModel (Catalog.blogCatalog.entity "Comment" commentModel) where
  storage := ⟨.patient, rfl⟩
  describes := Catalog.schema_describes Catalog.blogCatalog_wellFormed
  model := rfl
  entity := by rw [blogEngine, Catalog.schema_entity Catalog.blogCatalog rfl]; rfl
  keys := rfl
  keyed := by decide
  addressed := ⟨by decide, by decide, .inl (by decide)⟩

theorem blogDatabase_keyed : Catalog.blogDatabase.Keyed commentModel := ⟨by decide, by decide⟩

def firstComment : Row :=
  [("id", .integer 1), ("body", .text "yes"), ("approved", .integer 1), ("postId", .integer 3)]

theorem firstComment_open : firstComment ∈ Catalog.blogDatabase.rows commentModel ∧
    Catalog.blogCatalog.Satisfies commentModel Catalog.blogDatabase firstComment (.object [("id", .int 1)]) ∧
    Catalog.blogCatalog.Satisfies commentModel Catalog.blogDatabase firstComment
      (.object [("approved", .bool true)]) :=
  ⟨Database.mem_rows.mpr (List.mem_cons_self ..), ⟨_, rfl, rfl⟩, ⟨_, rfl, rfl⟩⟩

/-- Asked for in a shape that shows its key, an approved comment comes back. -/
theorem approvedComment_got :
    blogEngine.Serves Catalog.blogCatalog "Comment" commentModel
      (Catalog.blogCatalog.entity "Comment" commentModel) ∧
    blogEngine.rules.Proper ∧ Catalog.blogDatabase.Keyed commentModel ∧
    ∃ outcome, (blogEngine.get "Comment" (.principal {})
      { id := .int 1, includes := .null, fields := .text "id,body" }).runOn Catalog.blogDatabase =
        (.ok outcome, Catalog.blogDatabase) := by
  have hproper : blogEngine.rules.Proper :=
    Rules.reading_proper (by simp [Value.Proper, Value.ProperMembers, Object.keys])
  have hid : Key.whereId blogEngine.schema "Comment" (.int 1) = .ok [("id", .int 1)] := rfl
  have hperm : (blogEngine.viewpoint (.principal {})).filterFor .read "Comment" =
      .ok [("approved", .bool true)] := rfl
  have halike : Guard.Alike Catalog.blogCatalog commentModel [("id", .int 1)] [("approved", .bool true)] := by
    intro key v w hv hw
    simp only [List.mem_singleton, Prod.mk.injEq] at hv hw
    rw [hv.1] at hw
    exact absurd hw.1 (by decide)
  have hshape : blogEngine.selection "Comment" (.principal {}) .null (.text "id,body") =
      .ok { selects := some [("id", .bool true), ("body", .bool true)] } := rfl
  have hshown : ∀ k ∈ commentModel.keys, ¬ (blogEngine.viewpoint (.principal {})).Omits "Comment" k ∧
      (trimText "id,body" ≠ "" → k ∈ (Selection.parseFields "id,body").1) := by
    intro k hk
    have homitted : (blogEngine.viewpoint (.principal {})).omitted "Comment" = .ok [] := rfl
    have hfields : Selection.parseFields "id,body" = (["id", "body"], []) := by cbv
    obtain rfl := List.mem_singleton.mp (show k ∈ ["id"] from hk)
    refine ⟨?_, fun _ => by rw [hfields]; exact List.mem_cons_self ..⟩
    rintro ⟨names, hnames, hin⟩
    rw [homitted] at hnames
    cases hnames
    cases hin
  have hfound : (Catalog.blogCatalog.storage.findUnique "Comment"
      { filter := [("id", .int 1)], selects := some [("id", .bool true), ("body", .bool true)] }).runOn
        Catalog.blogDatabase = (.ok (some [("id", .int 1), ("body", .text "yes")]), Catalog.blogDatabase) := by cbv
  have hprobe : (Catalog.blogCatalog.storage.findUnique "Comment"
      (keyPlan commentModel (Guard.merge [("id", .int 1)] [("approved", .bool true)]))).runOn
        Catalog.blogDatabase = (.ok (some [("id", .int 1)]), Catalog.blogDatabase) := by cbv
  refine ⟨blogEngine_serves, hproper, blogDatabase_keyed, ?_⟩
  obtain ⟨answer, hrun, hgot, _⟩ := get_outcome blogEngine_serves rfl hproper blogDatabase_keyed hid trivial hperm
    halike hshape rfl hshown ⟨_, hfound⟩ ⟨_, hprobe⟩
  obtain ⟨outcome, rfl⟩ := hgot.mpr ⟨firstComment, firstComment_open⟩
  exact ⟨outcome, hrun⟩

/-- Asked for in a shape without its key, the same comment is held back. -/
theorem keylessComment_refused :
    (firstComment ∈ Catalog.blogDatabase.rows commentModel ∧
      Catalog.blogCatalog.Satisfies commentModel Catalog.blogDatabase firstComment (.object [("id", .int 1)]) ∧
      Catalog.blogCatalog.Satisfies commentModel Catalog.blogDatabase firstComment
        (.object [("approved", .bool true)])) ∧
    Key.whereId blogEngine.schema "Comment" (.int 1) = .ok [("id", .int 1)] ∧
    (blogEngine.viewpoint (.principal {})).filterFor .read "Comment" = .ok [("approved", .bool true)] ∧
    blogEngine.selection "Comment" (.principal {}) .null (.text "body") =
      .ok { selects := some [("body", .bool true)] } ∧
    (blogEngine.get "Comment" (.principal {})
      { id := .int 1, includes := .null, fields := .text "body" }).runOn Catalog.blogDatabase =
        (.error (.access "no_permission" "Comment"), Catalog.blogDatabase) := by
  have hfound : (Catalog.blogCatalog.storage.findUnique "Comment"
      { filter := [("id", .int 1)], selects := some [("body", .bool true)] }).runOn
        Catalog.blogDatabase = (.ok (some [("body", .text "yes")]), Catalog.blogDatabase) := by cbv
  have hprobe : (Catalog.blogCatalog.storage.findUnique "Comment"
      (keyPlan commentModel (Guard.merge [("id", .int 1)] [("approved", .bool true)]))).runOn
        Catalog.blogDatabase = (.ok (some [("id", .int 1)]), Catalog.blogDatabase) := by cbv
  have hid : Key.whereId blogEngine.schema "Comment" (.int 1) = .ok [("id", .int 1)] := rfl
  have hperm : (blogEngine.viewpoint (.principal {})).filterFor .read "Comment" =
      .ok [("approved", .bool true)] := rfl
  have hshape : blogEngine.selection "Comment" (.principal {}) .null (.text "body") =
      .ok { selects := some [("body", .bool true)] } := rfl
  refine ⟨firstComment_open, hid, hperm, hshape, ?_⟩
  rw [get_run rfl rfl hshape extraFor_none hid hperm blogEngine_serves.keySelection_ok blogEngine_serves.schema_keys hfound hprobe]
  rfl

end Engine

end RecordGraph
