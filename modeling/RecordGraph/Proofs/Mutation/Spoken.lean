import RecordGraph.Proofs.Mutation.Withheld
import RecordGraph.Proofs.Relational.Finding
import RecordGraph.Proofs.Relational.Session.Vocabulary

/-!
# What a transformed payload asks of its storage

The operations that a value of a relation is turned into have the shape of the value: those of a list
come with items, those of an object with a body. The storage reads them by the kind of the relation.
Where the two agree, at every depth, a transformed payload is in the vocabulary of the storage, which
then writes it or refuses it with a fault.
-/

namespace RecordGraph

/-! ## Values that fit a catalog -/

/-- No column is called like a word of filters, and a key of several columns has a name of its own. -/
structure Catalog.Addressed (c : Catalog) : Prop extends c.Sound where
  plain : ∀ e ∈ c.models, ∀ column ∈ e.2.columns, column.name ∉ ["", "AND", "OR", "NOT"]
  compound : ∀ e ∈ c.models, 1 < e.2.keys.length → e.2.AddressedBy (joinTexts "_" e.2.keys)

/-- The values of an item can be stored, and rows can be looked up by the keys among them. -/
structure Catalog.Suits (c : Catalog) (m : Model) (item : Object) : Prop where
  distinct : item.keys.Nodup
  stored : ∀ kv ∈ item, ∀ column, m.column? kv.1 = some column → column.Takes kv.2
  keys : ∀ kv ∈ item, kv.1 ∈ m.keys → kv.2.isObject = false
  held : ∀ kv ∈ item, ∀ l ∈ m.links, l.kind = .holds kv.1 → ∀ target key, c.named l.target = .ok target →
    target.column? l.keyColumn = some key → key.Finds kv.2

/-- A relation to one record is given no list, and a list relation that is updated no record. -/
def Relation.Shaped (updating : Bool) (r : Relation) (v : Value) : Prop :=
  v.isPresent = true → (v.isList = true → r.isList = true) ∧
    (updating = true → v.isObject = true → r.isList = false)

namespace Catalog

variable {c : Catalog} {m target : Model} {entity key field : String} {r : Relation}

theorem relation_none (hm : c.model? entity = some m) (hl : m.link? key = none) :
    (c.entity entity m).relation? key = none := by
  have hrelation := c.schema_relation? hm key
  rw [Schema.relation?_of_entity (c.schema_entity hm), hl] at hrelation
  exact Except.ok.inj hrelation

theorem foreign_link (hr : (c.entity entity m).relationForField? field = some r) :
    ∃ l ∈ m.links, c.relationOf l = r ∧ l.kind = .holds field := by
  have hin : r ∈ (c.entity entity m).relations := List.mem_of_find?_eq_some hr
  obtain ⟨l, hl, rfl⟩ := List.mem_map.mp hin
  have hfield : (c.relationOf l).field? = some field := by simpa using List.find?_some hr
  refine ⟨l, hl, rfl, ?_⟩
  rcases hk : l.kind with column | ⟨column, many⟩ | table <;>
    simp [relationOf, Relation.field?, hk] at hfield
  rw [hfield]

theorem Sound.target_model {l : Link} (h : c.Sound) (hm : c.Has m) (hl : l ∈ m.links) :
    ∃ target, c.model? (c.relationOf l).target = some target ∧ c.named l.target = .ok target := by
  obtain ⟨_, hm⟩ := hm
  rw [(c.relationOf_facts l).2.1]
  exact entityOf_model h.toWellFormed (h.closed _ hm l hl)

theorem unlinked (h : c.Sound) (hm : c.Has m) {column : Column} (hc : m.column? key = some column) :
    m.link? key = none := by
  obtain ⟨_, hm⟩ := hm
  exact Model.column?_name hc ▸ h.apart _ hm column (List.mem_of_find?_eq_some hc)

theorem Addressed.unreserved (h : c.Addressed) (hm : c.Has m) {column : Column}
    (hc : m.column? key = some column) : key ∉ ["", "AND", "OR", "NOT"] := by
  obtain ⟨_, hm⟩ := hm
  exact Model.column?_name hc ▸ h.plain _ hm column (List.mem_of_find?_eq_some hc)

theorem Addressed.answers_found (h : c.Addressed) (hm : c.Has m) {column : Column} {v : Value}
    (hc : m.column? key = some column) (hv : column.Finds v) : key ≠ "AND" ∧ c.AnswersMember m (key, v) := by
  have hplain := h.unreserved hm hc
  simp only [List.mem_cons, List.not_mem_nil, or_false, not_or] at hplain
  refine ⟨hplain.2.1, answers_column ?_ (unlinked h.toSound hm hc) hc hv⟩
  simp [hplain]

end Catalog

theorem Column.takes_null {column : Column} : column.Takes .null := by
  intro w hw
  rw [coerce] at hw
  cases hk : column.kind <;> rw [hk] at hw <;> cases hw <;> trivial

namespace Writer

/-- A writer over the models of a catalog, whose rules answer with filters that its storage answers. -/
structure Over (w : Writer) (c : Catalog) : Prop where
  catalog : c.Addressed
  schema : w.view.schema = c.schema
  guards : ∀ {action entity guard m}, w.view.filterFor action entity = .ok guard → c.model? entity = some m →
    c.AnswersGuard m guard

/-- A payload without operations of which each item suits its model and each value of a relation has
the shape that the kind of the relation takes. -/
structure Fitting (w : Writer) (c : Catalog) (updating : Bool) (entity : String) (payload : Object) : Prop where
  plain : w.Plain entity payload
  suits : ∀ {nested target item m}, ItemIn w.view.schema entity payload nested target item →
    c.model? target = some m → c.Suits m item
  shaped : ∀ {r v}, Given w.view.schema entity payload r v → r.Shaped updating v

variable {w : Writer} {c : Catalog} {m target : Model} {l : Link} {r : Relation} {entity : String} {item : Object}
  {id v ops : Value} {T : Relation → Value → Value → Prop}

/-! ## Filters -/

/-- The record that a foreign key names is looked up by the key that the column holds. -/
theorem connect_held {column : String} (hk : l.kind = .holds column)
    (hname : l.keyColumn ≠ "") (h : w.connect (c.relationOf l) v = .ok ops) :
    ∃ guard, w.view.filterFor .read (c.relationOf l).target = .ok guard ∧
      ops = .object [("connect", .object (Guard.merge [(l.keyColumn, v)] guard))] := by
  have hforeign : (c.relationOf l).foreignKey? = some l.keyColumn := by
    simp [Catalog.relationOf, Relation.foreignKey?, hk]
  obtain ⟨filter, hfilter, h⟩ := bind_ok_iff.mp h
  obtain rfl := pure_ok_iff.mp h
  obtain ⟨keys, _, hfilter⟩ := bind_ok_iff.mp hfilter
  rw [hforeign, Option.getD_some, if_neg fun h => hname h.2, Schema.connectKey, hforeign] at hfilter
  dsimp only at hfilter
  rw [if_neg hname] at hfilter
  obtain ⟨name, hname', hfilter⟩ := bind_ok_iff.mp hfilter
  obtain rfl := pure_ok_iff.mp hname'
  obtain ⟨condition, hcondition, hfilter⟩ := bind_ok_iff.mp hfilter
  obtain rfl := pure_ok_iff.mp hcondition
  obtain ⟨guard, hguard, hfilter⟩ := bind_ok_iff.mp hfilter
  obtain rfl := pure_ok_iff.mp hfilter
  exact ⟨guard, hguard, rfl⟩

theorem Sought.answers {filter : Object} (ho : w.Over c) (ht : c.model? r.target = some target)
    (hid : ∀ column ∈ target.columns, column.Takes id) (hsuits : c.Suits target item)
    (h : w.Sought id r (c.entity r.target target) item filter) : c.Answers target (.object filter) := by
  obtain ⟨prepared, joinKey, parent, condition, action, guard, hprep, hjoin, hparent, hcond, hguard, rfl⟩ := h
  have hm := Catalog.mem_of_model? ht
  have hhas : c.Has target := ⟨_, hm⟩
  have hkey : ∀ k ∈ target.keys, ∀ v, (k, v) ∈ prepared →
      ∃ column, target.column? k = some column ∧ column.Finds v := by
    intro k hk v hv
    obtain ⟨column, hcolumn⟩ := Model.column?_of_key hk
    have hrelation := Catalog.relation_none ht (Catalog.unlinked ho.catalog.toSound hhas hcolumn)
    have hin := hprep _ hv hrelation
    exact ⟨column, hcolumn, hsuits.keys _ hin hk, hsuits.stored _ hin column hcolumn⟩
  refine Catalog.answers_merged (fun kv hkv => ?_) (ho.guards hguard ht)
  cases joinKey with
  | none =>
      obtain ⟨k, hk, hfound⟩ := mem_of_mapM_ok hcond hkv
      split at hfound
      next v hv =>
        obtain rfl := pure_ok_iff.mp hfound
        obtain ⟨column, hcolumn, hfinds⟩ := hkey k hk v (Object.mem_of_get? hv)
        exact ho.catalog.answers_found hhas hcolumn hfinds
      next => cases hfound
  | some names =>
      obtain ⟨hkeys, hlong, hback⟩ := joinKey_some (hjoin.resolve_left (by simp))
      rw [ho.schema, Schema.keys, c.schema_entity ht] at hkeys
      obtain rfl : target.keys = names := Except.ok.inj hkeys
      obtain rfl := pure_ok_iff.mp hcond
      cases List.mem_singleton.mp hkv
      have hname := ho.catalog.compound _ hm hlong
      refine ⟨fun hand => hname.plain (List.mem_cons.mpr (.inl hand)), ?_⟩
      have hfirst : r.references.headD "" ∈ Object.keys (Object.update [(r.references.headD "", parent)]
          (target.keys.filterMap fun n => (Object.get? n prepared).map (n, ·))) :=
        Object.mem_keys_update.mpr (.inl List.mem_cons_self)
      refine Catalog.answers_key hname.plain hname.unlinked ?_ ?_ fun kv hkv => ?_
      · exact (hname.keys.resolve_left fun h => by rw [h] at hlong; exact absurd hlong (by simp)).2
      · exact fun hnil => absurd (hnil ▸ hfirst) List.not_mem_nil
      · rcases Object.mem_of_mem_update hkv with hown | hparentKey
        · obtain ⟨k, hk, hfound⟩ := List.mem_filterMap.mp hown
          obtain ⟨v, hv, rfl⟩ := Option.map_eq_some_iff.mp hfound
          obtain ⟨column, hcolumn, hfinds⟩ := hkey k hk v (Object.mem_of_get? hv)
          exact ⟨column, hcolumn, hfinds.2⟩
        · cases List.mem_singleton.mp hparentKey
          obtain ⟨column, hcolumn⟩ := Model.column?_of_key hback
          refine ⟨column, hcolumn, ?_⟩
          rcases hparent with rfl | rfl
          · exact hid column (List.mem_of_find?_eq_some hcolumn)
          · exact Column.takes_null

/-! ## Bodies -/

variable {payload body : Object} {updating : Bool} {kind : BodyKind} {dropped : List String} {named : String}

/-- What a value of a relation in a payload is turned into can stand under the link. -/
def Says (w : Writer) (c : Catalog) (entity : String) (payload : Object) (r : Relation) (v ops : Value) : Prop :=
  v.nests = true → Given w.view.schema entity payload r v →
    ∀ m l, c.Has m → l ∈ m.links → c.relationOf l = r → Vocabulary.Under c m l ops

theorem Over.regular (ho : w.Over c) (hm : c.model? named = some m) (hs : c.Suits m item) :
    Regular (c.entity named m) item :=
  ⟨Catalog.schema_scalarsApart ho.catalog.toWellFormed named _ (c.schema_entity hm), hs.distinct⟩

theorem Over.connect_under (ho : w.Over c) (hm : c.model? named = some m) (hs : c.Suits m item) {field : String}
    (hl : l ∈ m.links) (hk : l.kind = .holds field) (hv : (field, v) ∈ item)
    (h : w.connect (c.relationOf l) v = .ok ops) : Vocabulary.Under c m l ops := by
  have hhas : c.Has m := ⟨named, Catalog.mem_of_model? hm⟩
  obtain ⟨target, htarget, hnamed⟩ := ho.catalog.target_model hhas hl
  have hjoins := ho.catalog.joins hhas hl hnamed
  simp only [Link.Joins, hk] at hjoins
  obtain ⟨key, hkey⟩ := Option.isSome_iff_exists.mp hjoins.2
  have hfar : c.Has target := ⟨_, Catalog.mem_of_model? htarget⟩
  have hname : l.keyColumn ≠ "" := fun he =>
    ho.catalog.unreserved hfar hkey (List.mem_cons.mpr (.inl he))
  obtain ⟨guard, hguard, rfl⟩ := connect_held hk hname h
  refine .one (by simp [Link.isList, hk]) hnamed fun op x hin => ?_
  cases List.mem_singleton.mp hin
  refine .connect (Catalog.answers_merged (fun kv hkv => ?_) (ho.guards hguard htarget))
  cases List.mem_singleton.mp hkv
  exact ho.catalog.answers_found hfar hkey (hs.held _ hv l hl hk target key hnamed hkey)

section
variable (ho : w.Over c) (hm : c.model? named = some m)
include ho hm

theorem Over.foreign {field : String} {found : Link} (hf : (c.entity named m).relationForField? field = some r)
    (hfound : m.link? r.name = some found) : c.relationOf found = r ∧ found.kind = .holds field := by
  have hhas : c.Has m := ⟨named, Catalog.mem_of_model? hm⟩
  obtain ⟨l, hl, rfl, hk⟩ := Catalog.foreign_link hf
  have hname : found.name = l.name := by
    rw [← (c.relationOf_facts l).1]
    simpa using List.find?_some hfound
  obtain rfl := ho.catalog.link_unique hhas (List.mem_of_find?_eq_some hfound) hl hname
  exact ⟨rfl, hk⟩

theorem Over.relation {key : String} (hl : m.link? key = some l) :
    (c.entity named m).relation? key = some (c.relationOf l) ∧
      w.view.schema.relation? named key = .ok (some (c.relationOf l)) := by
  have hrel := c.schema_relation? hm key
  rw [hl] at hrel
  refine ⟨?_, ho.schema ▸ hrel⟩
  rw [Schema.relation?_of_entity (c.schema_entity hm)] at hrel
  exact Except.ok.inj hrel

theorem Drawn.spoken (hp : w.Plain entity payload) (hs : c.Suits m item)
    (hgiven : ∀ {key v r}, (key, v) ∈ item → w.view.schema.relation? named key = .ok (some r) →
      Given w.view.schema entity payload r v)
    (h : w.Drawn (w.Says c entity payload) kind (c.entity named m) (Regular (c.entity named m) item)
      (item.without dropped) body) : Vocabulary.Body c m (.object body) := by
  have hhas : c.Has m := ⟨named, Catalog.mem_of_model? hm⟩
  have hlinked : ∀ {key}, ((c.entity named m).relation? key).isSome = true → m.link? key ≠ none := by
    intro key hsome hnone
    rw [Catalog.relation_none hm hnone] at hsome
    cases hsome
  refine .members (fun kv hkv l hl => ?_) fun kv hkv column hl hcolumn => ?_
  · have hmember := h.member kv hkv
    have hturned := h.turned (ho.regular hm hs) kv hkv
    obtain ⟨key, v⟩ := kv
    dsimp only at hmember hturned hl
    have hin := List.mem_of_find?_eq_some hl
    cases hmember with
    | kept hmem =>
        -- an object would have been turned into operations, and the payload has none
        refine .flat fun hpresent => ?_
        by_contra hobject
        have hop := hturned (by rw [(ho.relation hm hl).1]; rfl) (by simp [Value.nests, hpresent, hobject])
        rw [(hp.given (hgiven (Object.mem_of_mem_without hmem) (ho.relation hm hl).2)).1] at hop
        cases hop
    | nested hmem hr hsays _ hnests =>
        obtain rfl := Option.some.inj ((ho.relation hm hl).1.symm.trans hr)
        exact hsays hnests (hgiven (Object.mem_of_mem_without hmem) (ho.relation hm hl).2) m l hhas hin rfl
    | linked _ _ hv hr hc =>
        obtain ⟨rfl, hk⟩ := ho.foreign hm hr hl
        obtain ⟨target, _, hnamed⟩ := ho.catalog.target_model hhas hin
        have hjoins := ho.catalog.joins hhas hin hnamed
        simp only [Link.Joins, hk] at hjoins
        obtain ⟨column, hcolumn⟩ := Option.isSome_iff_exists.mp hjoins.1
        have hflat := Catalog.unlinked ho.catalog.toSound hhas hcolumn
        have hmem := hv.resolve_right fun hrel => hlinked hrel hflat
        exact ho.connect_under hm hs hin hk (Object.mem_of_mem_without hmem) hc
    | cut _ _ hr =>
        obtain ⟨rfl, hk⟩ := ho.foreign hm hr hl
        obtain ⟨target, _, hnamed⟩ := ho.catalog.target_model hhas hin
        refine .one (by simp [Link.isList, hk]) hnamed fun op x hin => ?_
        cases List.mem_singleton.mp hin
        exact .disconnect
  · have hmember := h.member kv hkv
    obtain ⟨key, v⟩ := kv
    dsimp only at hmember hl hcolumn
    rcases hmember.given with hmem | hrel
    · exact hs.stored _ (Object.mem_of_mem_without hmem) column hcolumn
    · exact absurd hl (hlinked hrel)

end

/-! ## Operations -/

section
variable {op : String} {x : Value} (ho : w.Over c) (ht : c.model? r.target = some target)
  (hcolumns : ∀ column ∈ target.columns, column.Takes id) (hs : c.Suits target item)
  (hb : ∀ {kind body}, w.BodyOf T (c.entity r.target target) item kind r.target body →
    Vocabulary.Body c target (.object body))
include hb

theorem RecordEntry.spoken (h : w.RecordEntry T updating r (c.entity r.target target) item op x) :
    Vocabulary.Single c target op x := by
  cases h with
  | create _ hbody => exact .create (hb hbody)
  | @upsert creating changing body changes _ hbody hchanges =>
      refine .upsert ?_ ?_
      · cases creating with
        | true => exact hb hbody
        | false => cases changing <;> exact .absent
      · cases creating <;> cases changing <;> first | exact hb hchanges | exact .absent

/-- A record on its own is created among the rows of a list, but no operation on one that is there. -/
theorem RecordEntry.listed (h : w.RecordEntry T false r (c.entity r.target target) item op x) :
    Work.itemsOf x = [x] ∧ Vocabulary.Item c target op x := by
  cases h with
  | create _ hbody => exact ⟨rfl, .create (hb hbody)⟩
  | upsert hu => cases hu

include ho ht hcolumns hs

theorem ListEntry.spoken (h : w.ListEntry T id r (c.entity r.target target) item op x) :
    Vocabulary.Item c target op x := by
  cases h with
  | create hbody => exact .create (hb hbody)
  | connect hw => exact .connect (hw.answers ho ht hcolumns hs)
  | either hw hbody => exact .either (hw.answers ho ht hcolumns hs) (hb hbody)
  | upsert hw hbody hchanges => exact .upsert (hw.answers ho ht hcolumns hs) (hb hbody) (hb hchanges)
  | update hw hchanges => exact .update (hw.answers ho ht hcolumns hs) (hb hchanges)

end

section
variable (ho : w.Over c) (hf : w.Fitting c updating entity payload)
include ho hf

/-- An item of a relation fits its model, and what is drawn from it is a body. -/
theorem item_spoken (ht : c.model? r.target = some target) (hgiven : Given w.view.schema entity payload r v)
    (hi : .object item ∈ v.asItems) : c.Suits target item ∧
      ∀ {kind body}, w.BodyOf (w.Says c entity payload) (c.entity r.target target) item kind r.target body →
        Vocabulary.Body c target (.object body) := by
  have hs := hf.suits (.nested hgiven hi) ht
  refine ⟨hs, fun hb => ?_⟩
  obtain ⟨_, _, _, _, _, hdrawn⟩ := hb
  exact hdrawn.spoken ho ht hf.plain hs fun hin hrel => .inside hgiven hi hrel hin

theorem turns_say (hid : ∀ e ∈ c.models, ∀ column ∈ e.2.columns, column.Takes id)
    (h : w.Turns (w.Says c entity payload) id updating r v ops) : w.Says c entity payload r v ops := by
  intro hnests hgiven m l hhas hl hr
  subst hr
  obtain ⟨target, htarget, hnamed⟩ := ho.catalog.target_model hhas hl
  have hcolumns := hid _ (Catalog.mem_of_model? htarget)
  have hlist := (c.relationOf_facts l).2.2
  have hpresent : v.isPresent = true := by
    cases hv : v.isPresent with
    | true => rfl
    | false => simp [Value.nests, hv] at hnests
  have hshaped := hf.shaped hgiven hpresent
  have hentity : ∀ {e}, w.view.schema.entity (c.relationOf l).target = .ok e →
      e = c.entity (c.relationOf l).target target := by
    intro e he
    rw [ho.schema, c.schema_entity htarget] at he
    exact (Except.ok.inj he).symm
  cases h with
  | many he h =>
      obtain rfl := hentity he
      refine .many (hlist ▸ hshaped.1 rfl) hnamed (fun op x hx => ?_) fun op x hx entry hentry => ?_
      · obtain ⟨entries, rfl, hne, _⟩ := h op x hx
        exact hne
      · obtain ⟨entries, rfl, _, hall⟩ := h op x hx
        obtain ⟨item, hin, hentry⟩ := hall entry hentry
        obtain ⟨hs, hbody⟩ := item_spoken ho hf htarget hgiven hin
        exact hentry.spoken ho htarget hcolumns hs hbody
  | record he h =>
      obtain rfl := hentity he
      obtain ⟨_, hbody⟩ := item_spoken ho hf htarget hgiven (List.mem_singleton.mpr rfl)
      cases hl' : l.isList with
      | true =>
          -- the update of one record has no place among the rows of a list
          have hcreating : updating = false := by
            by_contra hu
            have hone := hshaped.2 (by simpa using hu) rfl
            rw [hlist, hl'] at hone
            cases hone
          subst hcreating
          have hlisted := fun {op x} hx => (h op x hx).listed hbody
          refine .many hl' hnamed (fun op x hx => ?_) fun op x hx entry hentry => ?_
          · rw [(hlisted hx).1]
            exact List.cons_ne_nil x []
          · rw [(hlisted hx).1, List.mem_singleton] at hentry
            exact hentry ▸ (hlisted hx).2
      | false => exact .one hl' hnamed fun op x hx => (h op x hx).spoken hbody

end

/-! ## Transformed payloads -/

section
variable {out : Object} (ho : w.Over c)
include ho

theorem Over.entity_model {e : Entity} (he : w.view.schema.entity entity = .ok e) :
    ∃ m, c.model? entity = some m ∧ c.entity entity m = e := by
  rw [ho.schema] at he
  obtain ⟨m, hm, rfl⟩ := c.model_of_entity he
  exact ⟨m, hm, rfl⟩

theorem create_spoken (hf : w.Fitting c false entity payload) (h : w.create entity payload = .ok out) :
    ∃ m, c.model? entity = some m ∧ Vocabulary.Body c m (.object out) := by
  have hT : ∀ r v ops, Payload.isOperation v = false → w.Turns (w.Says c entity payload) .null false r v ops →
      w.Says c entity payload r v ops :=
    fun _ _ _ _ => turns_say ho hf fun _ _ _ _ => Column.takes_null
  obtain ⟨e, omitted, he, _, hdrawn⟩ := create_drawn hT h
  obtain ⟨m, hm, rfl⟩ := ho.entity_model he
  exact ⟨m, hm, hdrawn.spoken ho hm hf.plain (hf.suits .whole hm) fun hin hrel => .here hrel hin⟩

theorem update_spoken (hf : w.Fitting c true entity payload)
    (hid : ∀ e ∈ c.models, ∀ column ∈ e.2.columns, column.Takes id)
    (h : w.update entity id payload = .ok out) :
    ∃ m, c.model? entity = some m ∧ Vocabulary.Body c m (.object out) := by
  have hT : ∀ r v ops, Payload.isOperation v = false → w.Turns (w.Says c entity payload) id true r v ops →
      w.Says c entity payload r v ops := fun _ _ _ _ => turns_say ho hf hid
  obtain ⟨e, omitted, he, _, hdrawn⟩ := update_drawn hT h
  obtain ⟨m, hm, rfl⟩ := ho.entity_model he
  exact ⟨m, hm, hdrawn.spoken ho hm hf.plain (hf.suits .whole hm) fun hin hrel => .here hrel hin⟩

end

/-- A transformed payload has under each relation operations of the shape that its kind takes, at every
depth, and the storage ends with a record or with a fault. The values of the payload fit the catalog,
and those of relations have the shapes of their kinds. -/
theorem transformed_concludes (ho : w.Over c) {db : Database} (hdb : db.Fits) (entity : String) (payload : Object) :
    (∀ out, w.Fitting c false entity payload → w.create entity payload = .ok out →
      (∃ m, c.model? entity = some m ∧ Vocabulary.Body c m (.object out)) ∧
        Concludes ((c.storage.create entity out none).runOn db).1) ∧
    ∀ id filter out, w.Fitting c true entity payload →
      (∀ e ∈ c.models, ∀ column ∈ e.2.columns, column.Takes id) →
      (∀ m, c.model? entity = some m → c.Answers m (.object filter)) →
      w.update entity id payload = .ok out →
      (∃ m, c.model? entity = some m ∧ Vocabulary.Body c m (.object out)) ∧
        Concludes ((c.storage.update entity filter out none).runOn db).1 := by
  have hc := ho.catalog.toSound
  have honly : ∀ {out m}, c.model? entity = some m → Vocabulary.Body c m (.object out) →
      ∀ m', c.model? entity = some m' → Vocabulary.Body c m' (.object out) := by
    intro out m hm hb m' hm'
    cases hm.symm.trans hm'
    exact hb
  refine ⟨fun out hf h => ?_, fun id filter out hf hid hfilter h => ?_⟩
  · obtain ⟨m, hm, hb⟩ := create_spoken ho hf h
    exact ⟨⟨m, hm, hb⟩, Catalog.create_concludes hc hdb (honly hm hb)⟩
  · obtain ⟨m, hm, hb⟩ := update_spoken ho hf hid h
    exact ⟨⟨m, hm, hb⟩, Catalog.update_concludes hc hdb (honly hm hb) hfilter⟩

/-! The blog, written by its readers: a post of an author who is known by key, with a new comment and with one
that is there. -/

def blogger : Writer := { view := Catalog.reader }

def postComments : List Value := [.object [("body", .text "new")], .object [("id", .int 1)]]

def post : Object := [("authorId", .int 7), ("comments", .list postComments)]

def createdPost : Object := [
  ("comments", .object [("create", .list [.object [("body", .text "new")]]),
    ("connect", .list [.object [("id", .int 1), ("approved", .bool true)]])]),
  ("author", .object [("connect", .object [("id", .int 7)])])]

def changedPost : Object := [
  ("comments", .object [("connect", .list [.object [("id", .int 1), ("approved", .bool true)]]),
    ("create", .list [.object [("body", .text "new")]])]),
  ("author", .object [("connect", .object [("id", .int 7)])])]

theorem blogCatalog_addressed : Catalog.blogCatalog.Addressed where
  toWellFormed := Catalog.blogCatalog_wellFormed
  distinct := by simp [Catalog.blogCatalog]
  joined e he l hl target ht := by
    simp only [Catalog.blogCatalog, List.mem_cons, List.not_mem_nil, or_false] at he
    rcases he with rfl | rfl | rfl
    · cases hl
    · cases hl
    · rcases List.mem_pair.mp hl with rfl | rfl <;> cases ht
      · exact ⟨rfl, rfl⟩
      · exact ⟨rfl, rfl, fun h => absurd h (by decide)⟩
  defaults := by simp [Catalog.blogCatalog]
  plain := by simp [Catalog.blogCatalog]
  compound := by simp [Catalog.blogCatalog, Model.keys, Model.keyColumns]

theorem blogger_over : blogger.Over Catalog.blogCatalog where
  catalog := blogCatalog_addressed
  schema := rfl
  guards {action entity guard m} hguard hm := by
    have hopen : Catalog.blogCatalog.AnswersGuard m [] :=
      ⟨fun _ h => absurd h List.not_mem_nil, fun _ h => absurd h List.not_mem_nil⟩
    simp only [Viewpoint.filterFor, blogger, Catalog.reader, Catalog.readerRules, Rules.filterFor_ok_iff, Rules.decide,
      Rules.get?, List.lookup_cons, List.lookup_nil] at hguard
    obtain ⟨d, hd, _, rfl⟩ := hguard
    by_cases hcomment : entity = "Comment"
    · subst hcomment
      cases hm
      cases action <;> cases hd
      · refine ⟨fun kv hkv => ?_, fun v hv => ?_⟩
        · cases List.mem_singleton.mp hkv
          exact Catalog.answers_column (by decide) rfl rfl ⟨rfl, fun w hw => by cases hw; trivial⟩
        · exact absurd (congrArg Prod.fst (List.mem_singleton.mp hv)) (show "AND" ≠ "approved" by decide)
      all_goals exact hopen
    · rw [beq_eq_false_iff_ne.mpr hcomment] at hd
      cases hu : entity == "User" <;> rw [hu] at hd <;> cases action <;> cases hd <;> exact hopen

theorem post_given {r : Relation} {v : Value} (h : Given Catalog.blogCatalog.schema "Post" post r v) :
    r.target = "Comment" ∧ r.isList = true ∧ v = .list postComments := by
  induction h with
  | here hr hm =>
      rcases List.mem_pair.mp hm with hm | hm <;> cases hm <;> cases hr
      exact ⟨rfl, rfl, rfl⟩
  | inside _ _ hr _ ih =>
      rw [ih.1] at hr
      have hnone : ∀ key, Catalog.blogCatalog.schema.relation? "Comment" key = .ok none := fun _ => rfl
      rw [hnone] at hr
      cases hr

theorem takes_int {column : Column} {n : Int} (h : Column.Fits n) : column.Takes (.int n) := by
  intro w hw
  rw [Column.coerce] at hw
  cases hk : column.kind <;> rw [hk] at hw <;> cases hw <;> trivial

theorem post_fitting (updating : Bool) : blogger.Fitting Catalog.blogCatalog updating "Post" post where
  plain := by
    intro v hn
    cases hn with
    | here hr hm =>
        rcases List.mem_pair.mp hm with hm | hm <;> cases hm <;> cases hr
        rfl
    | inside hr hm hi hn =>
        rcases List.mem_pair.mp hm with hm | hm <;> cases hm <;> cases hr
        cases hn with
        | here hr | inside hr => cases hr
  suits {nested target item m} hitem hm := by
    have hfits : ∀ n ∈ [(1 : Int), 7], Column.Fits n := by
      simp [Column.Fits, ColumnKind.greatestInteger]
    cases hitem with
    | whole =>
      cases hm
      refine ⟨by decide, fun kv hkv column hcolumn => ?_, fun kv hkv hkey => ?_,
        fun kv hkv l hl hk target key _ _ => ?_⟩
      · rcases List.mem_pair.mp hkv with rfl | rfl
        · exact takes_int (hfits 7 (by simp))
        · cases hcolumn
      · rcases List.mem_pair.mp hkv with rfl | rfl <;> revert hkey <;> decide
      · rcases List.mem_pair.mp hkv with rfl | rfl
        · exact ⟨rfl, takes_int (hfits 7 (by simp))⟩
        · rcases List.mem_pair.mp hl with rfl | rfl <;> simp at hk
    | nested hg hi =>
      obtain ⟨htarget, _, rfl⟩ := post_given hg
      rw [htarget] at hm
      cases hm
      rcases List.mem_pair.mp hi with hi | hi <;> cases hi
      · refine ⟨by decide, fun kv hkv column hcolumn => ?_, fun kv hkv hkey => ?_, fun kv hkv l hl => ?_⟩
        · cases List.mem_singleton.mp hkv
          cases hcolumn
          intro w hw
          cases hw
          trivial
        · cases List.mem_singleton.mp hkv
          rfl
        · cases hl
      · refine ⟨by decide, fun kv hkv column hcolumn => ?_, fun kv hkv hkey => ?_, fun kv hkv l hl => ?_⟩
        · cases List.mem_singleton.mp hkv
          exact takes_int (hfits 1 (by simp))
        · cases List.mem_singleton.mp hkv
          rfl
        · cases hl
  shaped hg _ := by
    obtain ⟨_, hlist, rfl⟩ := post_given hg
    exact ⟨fun _ => hlist, fun _ h => absurd h (by decide)⟩

theorem blogDatabase_fits : Catalog.blogDatabase.Fits := by
  have hcells : ∀ t ∈ Catalog.blogDatabase.tables, ∀ row ∈ t.2, Row.Fits row := by
    simp only [Catalog.blogDatabase, Row.Fits, List.forall_mem_cons]
    simp [Cell.Fits, Column.Fits, ColumnKind.greatestInteger]
  intro name row hrow
  unfold Database.rowsOf at hrow
  cases ht : Catalog.blogDatabase.tables.lookup name with
  | none => rw [ht] at hrow; cases hrow
  | some rows =>
      rw [ht] at hrow
      obtain ⟨before, after, he, _⟩ := List.lookup_eq_some_iff.mp ht
      exact hcells (name, rows) (by rw [he]; simp) row hrow

/-- The post is created, and an update with it is made. -/
theorem post_concludes :
    blogger.Over Catalog.blogCatalog ∧ Catalog.blogDatabase.Fits ∧
    (∀ updating, blogger.Fitting Catalog.blogCatalog updating "Post" post) ∧
    blogger.create "Post" post = .ok createdPost ∧ blogger.update "Post" (.int 3) post = .ok changedPost ∧
    ((∃ m, Catalog.blogCatalog.model? "Post" = some m ∧ Vocabulary.Body Catalog.blogCatalog m (.object createdPost)) ∧
      Concludes ((Catalog.blogCatalog.storage.create "Post" createdPost none).runOn Catalog.blogDatabase).1) ∧
    (∃ m, Catalog.blogCatalog.model? "Post" = some m ∧ Vocabulary.Body Catalog.blogCatalog m (.object changedPost)) ∧
      Concludes ((Catalog.blogCatalog.storage.update "Post" [("id", .int 3)] changedPost none).runOn
        Catalog.blogDatabase).1 := by
  have hcreate : blogger.create "Post" post = .ok createdPost := by rfl
  have hupdate : blogger.update "Post" (.int 3) post = .ok changedPost := by rfl
  have hid : Column.Fits 3 := by simp [Column.Fits, ColumnKind.greatestInteger]
  have hfilter : ∀ m, Catalog.blogCatalog.model? "Post" = some m →
      Catalog.blogCatalog.Answers m (.object [("id", .int 3)]) := by
    intro m hm
    cases hm
    refine Catalog.answers_object fun kv hkv => ?_
    cases List.mem_singleton.mp hkv
    exact Catalog.answers_column (by decide) rfl rfl ⟨rfl, takes_int hid⟩
  have h := transformed_concludes blogger_over blogDatabase_fits "Post" post
  exact ⟨blogger_over, blogDatabase_fits, post_fitting, hcreate, hupdate, h.1 _ (post_fitting false) hcreate,
    h.2 _ _ _ (post_fitting true) (fun _ _ _ _ => takes_int hid) hfilter hupdate⟩

/-! A post whose comments are given as one record. -/

def remarkedPost : Object := [("comments", .object [("body", .text "new")])]

def remarkedChanges : Object := [("comments", .object [("upsert", .object [
  ("create", .object [("body", .text "new")]), ("update", .object [("body", .text "new")])])])]

/-- The operation for one record is none for the rows of a list: the storage ends with neither a record nor
a fault. -/
theorem remarkedPost_breaks :
    blogger.Plain "Post" remarkedPost ∧ blogger.update "Post" (.int 3) remarkedPost = .ok remarkedChanges ∧
    ¬ Concludes ((Catalog.blogCatalog.storage.update "Post" [("id", .int 3)] remarkedChanges none).runOn
      Catalog.blogDatabase).1 := by
  refine ⟨?_, by rfl, ?_⟩
  · intro v hn
    cases hn with
    | here hr hm =>
        cases List.mem_singleton.mp hm
        rfl
    | inside hr hm hi hn =>
        cases List.mem_singleton.mp hm
        cases hr
        cases hn with
        | here hr | inside hr => cases hr
  · have hrun : ((Catalog.blogCatalog.storage.update "Post" [("id", .int 3)] remarkedChanges none).runOn
        Catalog.blogDatabase).1 = .error .illFormed := by cbv
    rw [hrun]
    rintro (⟨_, h⟩ | ⟨_, h⟩) <;> cases h

end Writer

end RecordGraph
