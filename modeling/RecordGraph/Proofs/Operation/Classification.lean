import RecordGraph.Proofs.Operation.Atomicity
import RecordGraph.Proofs.Relational.Lookup

/-!
# Which rows of a batch are updated

A batch looks up the rows that have the key of one of its rows, and updates a row of its own if the texts of
its key are those of a record that was found. The storage compares the values of a key otherwise: as its
columns coerce them. The two agree where texts tell keys apart as the storage does.
-/

namespace RecordGraph

def Fate.isUpdate (fate : Fate) : Bool := fate.update?.isSome

namespace Key.UniqueKey

/-- Every field of the key is a column, and stands for nothing else in a filter. -/
def Columns (key : UniqueKey) (m : Model) : Prop :=
  ∀ f ∈ key.fields, f ∉ ["AND", "OR", "NOT"] ∧ m.link? f = none ∧ ∃ column, m.column? f = some column

/-- A row of the table has the key of a given row, as the storage compares them. -/
def Names (key : UniqueKey) (m : Model) (db : Database) (row : Object) (stored : Row) : Prop :=
  ∀ f ∈ key.fields, ∃ column cond, m.column? f = some column ∧ (Object.get row f).isNull = false ∧
    column.equalTo (Object.get row f) = .ok cond ∧ cond.selects db stored = true

/-- The values that some rows have for a field of the key are coerced to values of one kind. -/
def OneKind (key : UniqueKey) (m : Model) (rows : List Object) : Prop :=
  ∀ f ∈ key.fields, ∀ column, m.column? f = some column → ∃ kind, ∀ row ∈ rows,
    (Object.get row f).isNull = false →
      ∃ w, column.coerce (Object.get row f) = .ok w ∧ ColumnKind.ofValue? w = some kind

/-- Texts tell the keys of some rows apart from those of the table as the storage does. -/
def ToldByTexts (key : UniqueKey) (m : Model) (db : Database) (rows : List Object) : Prop :=
  ∀ f ∈ key.fields, ∀ column, m.column? f = some column → ∀ row ∈ rows, ∀ stored ∈ db.rows m,
    (stored.get f).isNull = false →
      ((column.kind.read (stored.get f)).shown = (Object.get row f).shown ↔
        (Object.get row f).isNull = false ∧
          ∃ cond, column.equalTo (Object.get row f) = .ok cond ∧ cond.selects db stored = true)

end Key.UniqueKey

/-! ## Keys of integers and of texts -/

namespace Key.UniqueKey

/-- The columns of the key hold integers and are given as integers or not at all, or they hold texts and are
given as texts. -/
def Plain (key : UniqueKey) (m : Model) (db : Database) (rows : List Object) : Prop :=
  ∀ f ∈ key.fields, ∀ column, m.column? f = some column →
    (column.kind = .integer ∧
      (∀ row ∈ rows, Object.get row f = .null ∨ ∃ n, Object.get row f = .int n ∧ Column.Fits n) ∧
      ∀ stored ∈ db.rows m, stored.get f = .null ∨ ∃ n, stored.get f = .integer n) ∨
    (column.kind = .text ∧ (∀ row ∈ rows, ∃ s, Object.get row f = .text s) ∧
      ∀ stored ∈ db.rows m, stored.get f = .null ∨ ∃ s, stored.get f = .text s)

variable {key : UniqueKey} {m : Model} {db : Database} {rows : List Object}

theorem Plain.oneKind (h : key.Plain m db rows) : key.OneKind m rows := by
  intro f hf column hcolumn
  rcases h f hf column hcolumn with ⟨hk, hrows, _⟩ | ⟨hk, hrows, _⟩
  · refine ⟨.integer, fun row hrow hnull => ?_⟩
    rcases hrows row hrow with hnone | ⟨n, hn, _⟩
    · rw [hnone] at hnull
      cases hnull
    · exact ⟨.int n, by rw [hn, Column.coerce, hk]; rfl, rfl⟩
  · refine ⟨.text, fun row hrow _ => ?_⟩
    obtain ⟨s, hs⟩ := hrows row hrow
    exact ⟨.text s, by rw [hs, Column.coerce, hk]; rfl, rfl⟩

theorem Plain.told (h : key.Plain m db rows) : key.ToldByTexts m db rows := by
  intro f hf column hcolumn row hrow stored hstored hfilled
  have hname := Model.column?_name hcolumn
  rcases h f hf column hcolumn with ⟨hk, hrows, hcells⟩ | ⟨hk, hrows, hcells⟩
  · obtain ⟨k, hcell⟩ := (hcells stored hstored).resolve_left fun hnull => by rw [hnull] at hfilled; cases hfilled
    have hread : column.kind.read (stored.get f) = .int k := by rw [hcell, hk]; rfl
    rw [hread]
    rcases hrows row hrow with hnone | ⟨n, hn, hfits⟩
    · rw [hnone]
      exact ⟨fun htext => absurd htext Value.shown_int_ne_null, fun h => nomatch h.1⟩
    · obtain ⟨cond, hcond, hsel⟩ : ∃ cond, column.equalTo (.int n) = .ok cond ∧
          (cond.selects db stored = true ↔ k = n) := Column.equalTo_int hk hfits (hname ▸ hcell)
      rw [hn, Value.shown_int_inj, ← hsel]
      exact ⟨fun h => ⟨rfl, cond, hcond, h⟩, fun ⟨_, _, hother, h⟩ => by cases hcond.symm.trans hother; exact h⟩
  · obtain ⟨t, hcell⟩ := (hcells stored hstored).resolve_left fun hnull => by rw [hnull] at hfilled; cases hfilled
    have hread : column.kind.read (stored.get f) = .text t := by rw [hcell, hk]; rfl
    obtain ⟨s, hs⟩ := hrows row hrow
    obtain ⟨cond, hcond, hsel⟩ : ∃ cond, column.equalTo (.text s) = .ok cond ∧
        (cond.selects db stored = true ↔ t = s) := Column.equalTo_text hk (hname ▸ hcell)
    rw [hread, hs, show (Value.text t).shown = t from rfl, show (Value.text s).shown = s from rfl, ← hsel]
    exact ⟨fun h => ⟨rfl, cond, hcond, h⟩, fun ⟨_, _, hother, h⟩ => by cases hcond.symm.trans hother; exact h⟩

end Key.UniqueKey

/-! ## The rows that the look-up finds -/

namespace Catalog

variable {c : Catalog} {m : Model} {db : Database} {key : Key.UniqueKey} {stored : Row} {row : Object}
  {rows : List Object} {f : String} {column : Column} {v w : Value} {kind : ColumnKind}

theorem condition_plain (hcoerce : column.coerce v = .ok w) (hkind : ColumnKind.ofValue? w = some kind) :
    column.condition v = column.equalTo v := by
  cases v with
  | object o =>
      have hsame : column.coerce (.object o) = .ok (.object o) := by
        rw [Column.coerce]
        cases column.kind <;> rfl
      cases hcoerce.symm.trans hsame
      cases hkind
  | null | bool _ | int _ | float _ | decimal _ | date _ | datetime _ | text _ | list _ => rfl

theorem member_column (hplain : f ∉ ["AND", "OR", "NOT"]) (hlink : m.link? f = none)
    (hcolumn : m.column? f = some column) : c.memberCondition m f v = column.condition v := by
  rw [memberCondition_name hplain, hlink]
  simp only [Model.cellCondition, hcolumn]

theorem among_member {vs : List Value} :
    column.condition (.object [("in", .list vs)]) = (fun cond => .all [cond]) <$> column.oneOf vs := by
  have hread : column.condition (.object [("in", .list vs)]) =
      Condition.all <$> (do return (← column.oneOf vs) :: (← pure [])) := by
    rw [Column.condition, Column.operators, Column.operators]
    rfl
  rw [hread]
  cases column.oneOf vs <;> rfl

theorem readable_member (h : ∃ cond, c.condition m (.object [(f, v)]) = .ok cond) :
    ∃ own, c.memberCondition m f v = .ok own := by
  obtain ⟨_, h⟩ := h
  rw [condition] at h
  obtain ⟨cs, hcs, _⟩ := map_ok_iff.mp h
  obtain ⟨own, _, hown, _, _⟩ := List.forall₂_cons_left_iff.mp (conditions_ok_iff.mp hcs)
  exact ⟨own, hown⟩

/-- An alternative selects the rows that satisfy one of its filters. -/
theorem or_selects_iff {items : List Value} {cond : Condition} (hne : items ≠ [])
    (h : c.memberCondition m "OR" (.list items) = .ok cond) :
    cond.selects db stored = true ↔ ∃ item ∈ items, c.Satisfies m db stored item := by
  obtain ⟨ps, hps, rfl⟩ := map_ok_iff.mp h
  have hall := parts_ok_iff.mp hps
  have hsome : ps.isEmpty = false := by
    cases hall with
    | nil => exact absurd rfl hne
    | cons _ _ => rfl
  rw [hsome, if_neg Bool.false_ne_true, Condition.selects_any_iff]
  constructor
  · rintro ⟨p, hp, hsel⟩
    obtain ⟨item, hitem, hread⟩ := forall₂_partner hall.flip hp
    exact ⟨item, hitem, p, hread, hsel⟩
  · rintro ⟨item, hitem, p, hread, hsel⟩
    obtain ⟨p', hp', hread'⟩ := forall₂_partner hall hitem
    cases hread.symm.trans hread'
    exact ⟨p, hp', hsel⟩

theorem lookup_one {rows : List Object} (hone : key.fields = [f]) :
    (key.lookup rows).filter = [(f, .object [("in", .list (rows.map fun row => Object.get row f))])] := by
  simp only [Key.UniqueKey.lookup, hone]

/-- The filter of a row for a key of several fields. -/
def keyFilter (key : Key.UniqueKey) (row : Object) : Object :=
  Object.ofMembers (key.fields.map fun f => (f, Object.get row f))

theorem lookup_many {rows : List Object} (hmany : ¬ ∃ f, key.fields = [f]) :
    (key.lookup rows).filter = [("OR", .list (rows.map fun row => .object (keyFilter key row)))] := by
  unfold Key.UniqueKey.lookup keyFilter
  split
  next f hone => exact absurd ⟨f, hone⟩ hmany
  next => rfl

/-- The members of the filter of a row are those of its key. -/
theorem satisfies_keyFilter_iff (hcols : key.Columns m) (hkind : key.OneKind m rows) (hrow : row ∈ rows)
    (hgiven : key.isGiven row = true) :
    c.Satisfies m db stored (.object (keyFilter key row)) ↔ key.Names m db row stored := by
  rw [satisfies_object_iff]
  have hnull {f : String} (hf : f ∈ key.fields) : (Object.get row f).isNull = false := by
    have hall := List.all_eq_true.mp hgiven f hf
    simpa using hall
  have hmember {f : String} (hf : f ∈ key.fields) :
      c.SatisfiesMember m db stored (f, Object.get row f) ↔ ∃ column cond, m.column? f = some column ∧
        (Object.get row f).isNull = false ∧ column.equalTo (Object.get row f) = .ok cond ∧
          cond.selects db stored = true := by
    obtain ⟨hplain, hlink, column, hcolumn⟩ := hcols f hf
    obtain ⟨kind, hkinds⟩ := hkind f hf column hcolumn
    obtain ⟨w, hcoerce, hw⟩ := hkinds row hrow (hnull hf)
    rw [SatisfiesMember, member_column hplain hlink hcolumn, condition_plain hcoerce hw]
    constructor
    · rintro ⟨cond, hcond, hsel⟩
      exact ⟨column, cond, hcolumn, hnull hf, hcond, hsel⟩
    · rintro ⟨column', cond, hcolumn', _, hcond, hsel⟩
      cases hcolumn.symm.trans hcolumn'
      exact ⟨cond, hcond, hsel⟩
  constructor
  · intro h f hf
    have hin : (f, Object.get row f) ∈ keyFilter key row := by
      have hkey : f ∈ Object.keys (keyFilter key row) :=
        Object.mem_keys_ofMembers.mpr (by simpa [Object.keys] using hf)
      obtain ⟨⟨_, v⟩, hv, rfl⟩ := List.mem_map.mp hkey
      obtain ⟨_, _, he⟩ := List.mem_map.mp (Object.mem_of_mem_ofMembers hv)
      cases he
      exact hv
    exact (hmember hf).mp (h _ hin)
  · intro h kv hkv
    obtain ⟨f, hf, rfl⟩ := List.mem_map.mp (Object.mem_of_mem_ofMembers hkv)
    exact (hmember hf).mpr (h f hf)

/-- The look-up finds no row whose key has a null. -/
theorem lookup_filled (hcols : key.Columns m) (hkind : key.OneKind m rows)
    (hgiven : ∀ row ∈ rows, key.isGiven row = true)
    (hne : rows ≠ []) (h : c.Satisfies m db stored (.object (key.lookup rows).filter)) :
    ∀ f ∈ key.fields, (stored.get f).isNull = false := by
  by_cases hone : ∃ f, key.fields = [f]
  · obtain ⟨f, hone⟩ := hone
    rw [lookup_one hone] at h
    obtain ⟨cond, hcond, hsel⟩ := satisfies_object_iff.mp h _ (List.mem_singleton.mpr rfl)
    obtain ⟨hplain, hlink, column, hcolumn⟩ := hcols f (by rw [hone]; exact List.mem_singleton.mpr rfl)
    rw [member_column hplain hlink hcolumn, among_member] at hcond
    obtain ⟨own, hown, rfl⟩ := map_ok_iff.mp hcond
    intro g hg
    rw [hone, List.mem_singleton] at hg
    subst hg
    have hname := Model.column?_name hcolumn
    exact hname ▸ Column.oneOf_filled hown (Condition.selects_all_iff.mp hsel own (List.mem_singleton.mpr rfl))
  · rw [lookup_many hone] at h
    obtain ⟨cond, hcond, hsel⟩ := satisfies_object_iff.mp h _ (List.mem_singleton.mpr rfl)
    obtain ⟨_, hitem, hsat⟩ := (or_selects_iff (by simpa using hne) hcond).mp hsel
    obtain ⟨row, hrow, rfl⟩ := List.mem_map.mp hitem
    intro f hf
    obtain ⟨column, own, hcolumn, hnull, hown, hsel⟩ :=
      (satisfies_keyFilter_iff hcols hkind hrow (hgiven row hrow)).mp hsat f hf
    exact Model.column?_name hcolumn ▸ Column.equalTo_filled hnull hown hsel

/-- The look-up finds the rows that have the key of one of the rows that it is made for. -/
theorem lookup_names (hcols : key.Columns m) (hkind : key.OneKind m rows)
    (hgiven : ∀ row ∈ rows, key.isGiven row = true)
    (hrow : row ∈ rows) (hnames : key.Names m db row stored)
    (hread : ∃ cond, c.condition m (.object (key.lookup rows).filter) = .ok cond) :
    c.Satisfies m db stored (.object (key.lookup rows).filter) := by
  by_cases hone : ∃ f, key.fields = [f]
  · obtain ⟨f, hone⟩ := hone
    rw [lookup_one hone] at hread ⊢
    have hf : f ∈ key.fields := by rw [hone]; exact List.mem_singleton.mpr rfl
    obtain ⟨cond, hcond⟩ := readable_member hread
    obtain ⟨hplain, hlink, column, hcolumn⟩ := hcols f hf
    obtain ⟨kind, hkinds⟩ := hkind f hf column hcolumn
    obtain ⟨column', own, hcolumn', hnull, hown, hsel⟩ := hnames f hf
    cases hcolumn.symm.trans hcolumn'
    have hmember := hcond
    rw [member_column hplain hlink hcolumn, among_member] at hcond
    obtain ⟨among, hamong, rfl⟩ := map_ok_iff.mp hcond
    have hvalues : ∀ v ∈ rows.map fun row => Object.get row f,
        v.isNull = false ∧ ∃ w, column.coerce v = .ok w ∧ ColumnKind.ofValue? w = some kind := by
      intro v hv
      obtain ⟨other, hother, rfl⟩ := List.mem_map.mp hv
      have hnull : (Object.get other f).isNull = false := by
        simpa using List.all_eq_true.mp (hgiven other hother) f hf
      exact ⟨hnull, hkinds other hother hnull⟩
    refine satisfies_object_iff.mpr fun kv hkv => ?_
    cases List.mem_singleton.mp hkv
    refine ⟨_, hmember, Condition.selects_all_iff.mpr fun d hd => ?_⟩
    cases List.mem_singleton.mp hd
    exact Column.oneOf_selects (List.mem_map_of_mem hrow) hvalues hamong hown hsel
  · rw [lookup_many hone] at hread ⊢
    obtain ⟨cond, hcond⟩ := readable_member hread
    refine satisfies_object_iff.mpr fun kv hkv => ?_
    cases List.mem_singleton.mp hkv
    refine ⟨cond, hcond, (or_selects_iff ?_ hcond).mpr ⟨_, List.mem_map_of_mem hrow, ?_⟩⟩
    · exact fun hnil => List.ne_nil_of_mem hrow (List.map_eq_nil_iff.mp hnil)
    · exact (satisfies_keyFilter_iff hcols hkind hrow (hgiven row hrow)).mpr hnames

/-- The reads and writes of a storage over a catalog, inside a transaction or each by itself. -/
def Serves (c : Catalog) (tx : Access Database) : Prop := tx = c.calls ∨ tx = c.storage.toAccess

theorem Serves.findMany_still {tx : Access Database} {entity : String} {p : Plan} (h : c.Serves tx) :
    (tx.findMany entity p).Still := by
  rcases h with rfl | rfl
  · exact Catalog.findMany_still
  · exact Catalog.findMany_still.transaction

/-- A statement for many rows is the same in a transaction and by itself. -/
theorem Serves.createMany_ok {tx : Access Database} {entity : String} {rows : List Object} {n : Int}
    {db db' : Database} (h : c.Serves tx) (hrun : (tx.createMany entity rows).runOn db = (.ok n, db')) :
    (c.createMany entity rows true).runOn db = (.ok n, db') := by
  rcases h with rfl | rfl
  · exact hrun
  · exact Query.transaction_ok hrun

theorem lookup_texts {levels : Nat} {loads o : Object} (hcols : key.Columns m)
    (h : c.record db (levels + 1) m loads (key.lookup rows).shape stored = .ok o) :
    key.texts o = key.texts (stored.values m) := by
  refine List.map_congr_left fun f hf => ?_
  obtain ⟨_, hlink, _⟩ := hcols f hf
  have hshown : Shape.Shows (key.lookup rows).shape f := by
    refine (Plan.shows_selected rfl).mpr ⟨.bool true, Object.mem_of_get? ?_, rfl⟩
    rw [Object.get?_ofMembers_map, if_pos hf]
  rw [Object.get, Object.get, (record_column hlink h).1 hshown]

end Catalog

namespace Engine

variable {c : Catalog} {e : Engine Database} {tx : Access Database} {entity : String} {m : Model} {user : User}
  {permission : Object} {key : Key.UniqueKey} {follow : Bool} {db looked db' : Database}
  {existing : List (List String)} {payloads : List Object}

/-- The texts that the look-up comes back with are those of the rows that satisfy its filter. -/
theorem existingKeys_texts (htx : c.Serves tx) (hm : c.model? entity = some m) (hcols : key.Columns m)
    (h : (existingKeys tx entity key payloads).runOn db = (.ok existing, looked))
    (hsome : payloads.filter key.isGiven ≠ []) :
    (∃ cond, c.condition m (.object (key.lookup (payloads.filter key.isGiven)).filter) = .ok cond) ∧
    ∀ texts, texts ∈ existing ↔ ∃ stored ∈ db.rows m,
      c.Satisfies m db stored (.object (key.lookup (payloads.filter key.isGiven)).filter) ∧
        key.texts (stored.values m) = texts := by
  rw [existingKeys_eq, if_neg (by simpa using hsome)] at h
  obtain ⟨found, looked', hfind, htexts⟩ := Act.runOn_bind_ok_iff.mp h
  have hfound : (c.findMany entity (key.lookup (payloads.filter key.isGiven))).runOn db = (.ok found, looked') := by
    rcases htx with rfl | rfl
    · exact hfind
    · exact Query.transaction_ok hfind
  obtain ⟨hread, hrecords, hrows⟩ := Catalog.findMany_whole hm rfl rfl rfl hfound
  have hall := mapM_ok_forall₂ (Act.runOn_liftM_ok_iff.mp htexts).1
  refine ⟨hread, fun texts => ⟨fun hin => ?_, ?_⟩⟩
  · obtain ⟨record, hrecord, hread⟩ := forall₂_partner hall.flip hin
    obtain ⟨stored, hstored, hsat, o, rfl, ho⟩ := hrecords record hrecord
    cases hread
    exact ⟨stored, hstored, hsat, (Catalog.lookup_texts hcols ho).symm⟩
  · rintro ⟨stored, hstored, hsat, rfl⟩
    obtain ⟨o, hin, ho⟩ := hrows stored hstored hsat
    obtain ⟨texts, htexts, hread⟩ := forall₂_partner hall hin
    cases hread
    exact Catalog.lookup_texts hcols ho ▸ htexts

theorem existingKeys_none (h : (existingKeys tx entity key payloads).runOn db = (.ok existing, looked))
    (hnone : payloads.filter key.isGiven = []) : existing = [] := by
  rw [existingKeys_eq, if_pos (by rw [hnone]; rfl)] at h
  exact (Act.runOn_pure_ok_iff.mp h).1

/-! ## What is decided on a row -/

/-- A row is updated if the texts of its key were found, and otherwise created or refused. -/
theorem fateOf_cases {row : Object} {fate : Fate} (h : e.fateOf entity user key follow existing row = .ok fate) :
    (fate.isUpdate = true ↔ key.texts row ∈ existing) ∧
    (fate.isUpdate = false →
      (fate = .refuse row ∧ (e.viewpoint user).canCreate entity (.object row) = .ok false) ∨
      ((∃ body, fate = .create body) ∧ (e.viewpoint user).canCreate entity (.object row) = .ok true)) := by
  unfold fateOf at h
  split at h
  next hin =>
    obtain ⟨changes, _, h⟩ := bind_ok_iff.mp h
    cases pure_ok_iff.mp h
    exact ⟨⟨fun _ => by simpa using hin, fun _ => rfl⟩, nofun⟩
  next hout =>
    obtain ⟨allowed, hallowed, h⟩ := bind_ok_iff.mp h
    have hnot : key.texts row ∉ existing := by simpa using hout
    cases allowed with
    | false =>
        cases pure_ok_iff.mp h
        exact ⟨⟨nofun, fun hin => absurd hin hnot⟩, fun _ => .inl ⟨rfl, hallowed⟩⟩
    | true =>
        have hcreate : ∃ body, fate = .create body := by
          cases follow with
          | true =>
              obtain ⟨body, _, h⟩ := bind_ok_iff.mp h
              exact ⟨body, (pure_ok_iff.mp h).symm⟩
          | false =>
              obtain ⟨body, _, h⟩ := bind_ok_iff.mp h
              exact ⟨body, (pure_ok_iff.mp h).symm⟩
        obtain ⟨body, rfl⟩ := hcreate
        exact ⟨⟨nofun, fun hin => absurd hin hnot⟩, fun _ => .inr ⟨⟨body, rfl⟩, hallowed⟩⟩

/-- Where texts tell keys apart as the storage does, the look-up finds the texts of the rows whose keys the
table has. -/
theorem found_iff_named (htx : c.Serves tx) (hm : c.model? entity = some m) (hcols : key.Columns m)
    (hkind : key.OneKind m payloads) (htold : key.ToldByTexts m db payloads)
    (h : (existingKeys tx entity key payloads).runOn db = (.ok existing, looked)) {row : Object}
    (hrow : row ∈ payloads) : key.texts row ∈ existing ↔ ∃ stored ∈ db.rows m, key.Names m db row stored := by
  have hgiven : ∀ row ∈ payloads.filter key.isGiven, key.isGiven row = true := fun _ h => (List.mem_filter.mp h).2
  have hkind : key.OneKind m (payloads.filter key.isGiven) := by
    intro f hf column hcolumn
    obtain ⟨kind, hall⟩ := hkind f hf column hcolumn
    exact ⟨kind, fun row hrow => hall row (List.mem_filter.mp hrow).1⟩
  constructor
  · intro hin
    have hsome : payloads.filter key.isGiven ≠ [] := by
      intro hnone
      rw [existingKeys_none h hnone] at hin
      cases hin
    obtain ⟨_, htexts⟩ := existingKeys_texts htx hm hcols h hsome
    obtain ⟨stored, hstored, hsat, hsame⟩ := (htexts _).mp hin
    have hfilled := Catalog.lookup_filled hcols hkind hgiven hsome hsat
    refine ⟨stored, hstored, fun f hf => ?_⟩
    obtain ⟨_, _, column, hcolumn⟩ := hcols f hf
    have htext := List.map_inj_left.mp hsame f hf
    rw [Row.get_values hcolumn] at htext
    obtain ⟨hnull, cond, hcond, hsel⟩ := (htold f hf column hcolumn row hrow stored hstored (hfilled f hf)).mp htext
    exact ⟨column, cond, hcolumn, hnull, hcond, hsel⟩
  · rintro ⟨stored, hstored, hnames⟩
    have hrow' : row ∈ payloads.filter key.isGiven := by
      refine List.mem_filter.mpr ⟨hrow, List.all_eq_true.mpr fun f hf => ?_⟩
      obtain ⟨_, _, _, hnull, _⟩ := hnames f hf
      simpa using hnull
    obtain ⟨hread, htexts⟩ := existingKeys_texts htx hm hcols h (List.ne_nil_of_mem hrow')
    refine (htexts _).mpr ⟨stored, hstored, Catalog.lookup_names hcols hkind hgiven hrow' hnames hread, ?_⟩
    refine List.map_congr_left fun f hf => ?_
    obtain ⟨column, cond, hcolumn, hnull, hcond, hsel⟩ := hnames f hf
    have hfilled := Column.equalTo_filled hnull hcond hsel
    rw [Model.column?_name hcolumn] at hfilled
    rw [Row.get_values hcolumn]
    exact (htold f hf column hcolumn row hrow stored hstored hfilled).mpr ⟨hnull, cond, hcond, hsel⟩

/-- What a batch decides on its rows. A row is updated if its key has the texts of one that was found, and
otherwise created or refused. Where texts tell keys apart as the storage does, it is updated if the table has
its key. -/
theorem upsertRows_sorts {rows : List Value} {batch : Batch} (htx : c.Serves tx) (hm : c.model? entity = some m)
    (hcols : key.Columns m)
    (hrun : (e.upsertRows tx entity user permission key follow rows).runOn db = (.ok batch, db')) :
    ∃ payloads existing looked fates deals, rows.mapM payloadOf = .ok payloads ∧
      e.BatchRun tx entity user permission key follow payloads db looked db' existing fates deals batch ∧
      List.Forall₂ (fun row fate =>
        (fate.isUpdate = true ↔ payloads.filter key.isGiven ≠ [] ∧ ∃ stored ∈ db.rows m,
          c.Satisfies m db stored (.object (key.lookup (payloads.filter key.isGiven)).filter) ∧
            key.texts (stored.values m) = key.texts row) ∧
        (fate.isUpdate = false →
          (fate = .refuse row ∧ (e.viewpoint user).canCreate entity (.object row) = .ok false) ∨
          ((∃ body, fate = .create body) ∧ (e.viewpoint user).canCreate entity (.object row) = .ok true)))
        payloads fates ∧
      (key.OneKind m payloads → key.ToldByTexts m db payloads →
        List.Forall₂ (fun row fate => fate.isUpdate = true ↔ ∃ stored ∈ db.rows m, key.Names m db row stored)
          payloads fates) := by
  obtain ⟨payloads, existing, looked, fates, deals, hpayloads, hbatch⟩ := upsertRows_ok hrun
  have hfates := hbatch.sorted.imp fun _ _ => fateOf_cases
  have hfound (row : Object) : key.texts row ∈ existing ↔ payloads.filter key.isGiven ≠ [] ∧
      ∃ stored ∈ db.rows m, c.Satisfies m db stored (.object (key.lookup (payloads.filter key.isGiven)).filter) ∧
        key.texts (stored.values m) = key.texts row := by
    by_cases hsome : payloads.filter key.isGiven = []
    · rw [existingKeys_none hbatch.found hsome]
      exact ⟨nofun, fun h => absurd hsome h.1⟩
    · rw [(existingKeys_texts htx hm hcols hbatch.found hsome).2]
      exact ⟨fun h => ⟨hsome, h⟩, fun h => h.2⟩
  refine ⟨payloads, existing, looked, fates, deals, hpayloads, hbatch, ?_, fun hkind htold => ?_⟩
  · exact hfates.imp fun row fate h => ⟨h.1.trans (hfound row), h.2⟩
  · have hnamed : ∀ row ∈ payloads, key.texts row ∈ existing ↔ ∃ stored ∈ db.rows m, key.Names m db row stored :=
      fun row hrow => found_iff_named htx hm hcols hkind htold hbatch.found hrow
    exact ((List.forall₂_and_left _ _).mpr ⟨hnamed, hfates⟩).imp fun row fate h => h.2.1.trans h.1

/-! The posts of which one is there: their keys are integers. -/

theorem posts_sorted :
    Catalog.blogCatalog.Serves Catalog.blogCatalog.calls ∧
    ∃ m, Catalog.blogCatalog.model? "Post" = some m ∧ (Key.UniqueKey.single "id").Columns m ∧
      (openEngine.upsertRows Catalog.blogCatalog.calls "Post" (.principal {}) [] (.single "id") true
        postsRequest.rows).runOn Catalog.blogDatabase = (.ok postedBatch, postedDatabase) ∧
      (Key.UniqueKey.single "id").Plain m Catalog.blogDatabase [annsPost, bobsPost, cidsPost] ∧
      ∃ fates, List.Forall₂ (fun row (fate : Fate) => fate.isUpdate = true ↔
        ∃ stored ∈ Catalog.blogDatabase.rows m, (Key.UniqueKey.single "id").Names m Catalog.blogDatabase row stored)
          [annsPost, bobsPost, cidsPost] fates := by
  have hcols : (Key.UniqueKey.single "id").Columns ((Catalog.blogCatalog.model? "Post").getD default) := by
    intro f hf
    cases List.mem_singleton.mp hf
    exact ⟨by decide, rfl, _, rfl⟩
  have hplain : (Key.UniqueKey.single "id").Plain ((Catalog.blogCatalog.model? "Post").getD default)
      Catalog.blogDatabase [annsPost, bobsPost, cidsPost] := by
    intro f hf column hcolumn
    cases List.mem_singleton.mp hf
    cases hcolumn
    refine .inl ⟨rfl, ?_, ?_⟩
    · simp [annsPost, bobsPost, cidsPost, Object.get, Object.get?, Column.Fits, ColumnKind.greatestInteger]
    · intro stored hstored
      cases List.mem_singleton.mp (Database.mem_rows.mp hstored)
      exact .inr ⟨3, rfl⟩
  obtain ⟨payloads, _, _, fates, _, hpayloads, _, _, htold⟩ :=
    upsertRows_sorts (.inl rfl) (m := (Catalog.blogCatalog.model? "Post").getD default) rfl hcols posts_worked
  cases hpayloads
  exact ⟨.inl rfl, _, rfl, hcols, posts_worked, hplain, fates, htold hplain.oneKind hplain.told⟩

/-! A user whose key is written with a zero before it. -/

def paddedUser : Object := [("id", .text "07"), ("name", .text "Zoe")]

def paddedRequest : BatchRequest := { rows := [.object paddedUser] }

def readyUser : ReadyBatch := { permission := [], key := .single "id", rows := paddedRequest.rows }

def untoldUser : HookContext :=
  paddedRequest.context (.text "id")
    { entity := "User", operation := "upsert_many", stage := "before", user := some (.principal {}) }

theorem paddedUser_reaches : openEngine.BatchReaches "User" (.principal {}) paddedRequest Catalog.blogDatabase
    (.text "id") untoldUser readyUser Catalog.blogDatabase where
  some_rows := rfl
  permitted := rfl
  keyed := rfl
  hooked := rfl
  continued := rfl
  told := rfl
  given := rfl

/-- The table has the key of the row. The batch takes the row for a new one and then for a duplicate: it
updates nothing, creates nothing and tells of no failure. -/
theorem paddedUser_lost :
    (∃ m, Catalog.blogCatalog.model? "User" = some m ∧ ∃ stored ∈ Catalog.blogDatabase.rows m,
      (Key.UniqueKey.single "id").Names m Catalog.blogDatabase paddedUser stored) ∧
    (openEngine.upsertMany "User" (.principal {}) paddedRequest).runOn Catalog.blogDatabase =
      (.ok (.batch {}), Catalog.blogDatabase) := by
  have hfound : (existingKeys Catalog.blogCatalog.calls "User" (.single "id") [paddedUser]).runOn
      Catalog.blogDatabase = (.ok [["7"]], Catalog.blogDatabase) := by cbv
  have hsorted : [paddedUser].foldlM (openEngine.sortRow "User" (.principal {}) (.single "id") false [["7"]])
      ({} : Sorted) = .ok { creates := [paddedUser] } := rfl
  have hmany : (Catalog.blogCatalog.calls.createMany "User" [paddedUser]).runOn Catalog.blogDatabase =
      (.ok 0, Catalog.blogDatabase) := by cbv
  have hwork : (openEngine.batchWork "User" (.principal {}) paddedRequest readyUser
      Catalog.blogCatalog.calls).runOn Catalog.blogDatabase = (.ok {}, Catalog.blogDatabase) := by
    refine (Act.runOn_bind_of hfound).trans ?_
    refine (Act.runOn_bind_of (congrArg (·, Catalog.blogDatabase) hsorted)).trans ?_
    exact (Act.runOn_bind_of (collect_done hmany)).trans rfl
  have hcut : Clock.patient.cut? (.ofInt 30) Catalog.blogDatabase = none := rfl
  have hperform : (openEngine.performBatch "User" (.principal {}) paddedRequest readyUser).runOn
      Catalog.blogDatabase = (.ok {}, Catalog.blogDatabase) := Catalog.inTransaction_done rfl hcut hwork
  refine ⟨⟨_, rfl, _, Database.mem_rows.mpr List.mem_cons_self, fun f hf => ?_⟩, ?_⟩
  · cases List.mem_singleton.mp hf
    exact ⟨_, _, rfl, rfl, rfl, rfl⟩
  · exact paddedUser_reaches.run.trans (Act.runOn_bind_of (ask_of hperform))

end Engine

end RecordGraph
