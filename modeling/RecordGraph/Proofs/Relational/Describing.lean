import RecordGraph.Proofs.Schema.Names
import RecordGraph.Relational.Model

/-!
# Schemas that describe catalogs

A schema describes a catalog if its relations are the links of the models. The schema that is read
off a well-formed catalog does.
-/

namespace RecordGraph

/-- The relations of the schema are the links of the models, of the same kind and to the same
targets; no column goes by the name of a link. -/
structure Schema.Describes (s : Schema) (c : Catalog) : Prop where
  column : ∀ {entity m name}, c.model? entity = some m → m.link? name = none →
    s.relation? entity name = .ok none
  link : ∀ {entity m name l}, c.model? entity = some m → m.link? name = some l →
    ∃ r target, s.relation? entity name = .ok (some r) ∧ r.isList = l.isList ∧
      c.model? r.target = some target ∧ c.named l.target = .ok target
  apart : ∀ {entity m}, c.model? entity = some m → ∀ column ∈ m.columns, m.link? column.name = none

/-- A model has a link or a column of a name. -/
def Model.Has (m : Model) (name : String) : Prop := (m.link? name).isSome = true ∨ (m.column? name).isSome = true

/-- The schema knows the links and the columns of the models, and tells them apart. -/
structure Schema.Covers (s : Schema) (c : Catalog) : Prop where
  known : ∀ {entity m}, c.model? entity = some m →
    ∃ e, s.entity entity = .ok e ∧ ∀ name, m.Has name → e.Knows name
  apart : s.ScalarsApart

namespace Catalog

variable {c : Catalog}

/-- Entities have one model each, models are told apart by their names, links lead to models of the
catalog, and no column goes by the name of a link. -/
structure WellFormed (c : Catalog) : Prop where
  entities : (c.models.map Prod.fst).Nodup
  names : ∀ e ∈ c.models, ∀ e' ∈ c.models, e.2.name = e'.2.name → e.2 = e'.2
  closed : ∀ e ∈ c.models, ∀ l ∈ e.2.links, ∃ e' ∈ c.models, e'.2.name = l.target
  apart : ∀ e ∈ c.models, ∀ column ∈ e.2.columns, e.2.link? column.name = none

theorem mem_of_model? {entity : String} {m : Model} (h : c.model? entity = some m) :
    (entity, m) ∈ c.models := by
  obtain ⟨before, after, he, _⟩ := List.lookup_eq_some_iff.mp h
  rw [he]
  simp

theorem model?_of_mem (hn : (c.models.map Prod.fst).Nodup) {entity : String} {m : Model}
    (h : (entity, m) ∈ c.models) : c.model? entity = some m := by
  obtain ⟨before, after, he⟩ := List.append_of_mem h
  refine List.lookup_eq_some_iff.mpr ⟨before, after, he, fun e hb => bne_iff_ne.mpr fun heq => ?_⟩
  rw [he, List.map_append, List.map_cons, List.nodup_append] at hn
  exact hn.2.2 e.1 (List.mem_map.mpr ⟨e, hb, rfl⟩) entity (by simp) heq.symm

theorem schema_entity (c : Catalog) {entity : String} {m : Model} (h : c.model? entity = some m) :
    c.schema.entity entity = .ok (c.entity entity m) := by
  obtain ⟨before, after, he, hb⟩ := List.lookup_eq_some_iff.mp h
  have hl : c.schema.entities.lookup entity = some (.ok (c.entity entity m)) := by
    refine List.lookup_eq_some_iff.mpr ⟨before.map fun e => (e.1, .ok (c.entity e.1 e.2)),
      after.map fun e => (e.1, .ok (c.entity e.1 e.2)), by rw [schema, he]; simp, fun e hm => ?_⟩
    obtain ⟨e', hin, rfl⟩ := List.mem_map.mp hm
    exact hb e' hin
  rw [Schema.entity, hl]

theorem model_of_entity (c : Catalog) {entity : String} {e : Entity} (h : c.schema.entity entity = .ok e) :
    ∃ m, c.model? entity = some m ∧ e = c.entity entity m := by
  cases hm : c.model? entity with
  | some m =>
      rw [c.schema_entity hm] at h
      cases h
      exact ⟨m, rfl, rfl⟩
  | none =>
      have hnone : c.schema.entities.lookup entity = none := by
        rw [model?, List.lookup_eq_none_iff] at hm
        refine List.lookup_eq_none_iff.mpr fun kv hkv => ?_
        obtain ⟨e', hin, rfl⟩ := List.mem_map.mp hkv
        exact hm e' hin
      rw [Schema.entity, hnone] at h
      cases h

theorem relationOf_facts (c : Catalog) (l : Link) : (c.relationOf l).name = l.name ∧
    (c.relationOf l).target = c.entityOf l.target ∧ (c.relationOf l).isList = l.isList := by
  rcases hk : l.kind with column | ⟨column, _ | _⟩ | table <;>
    simp [relationOf, Link.isList, Relation.isList, hk]

/-- The relations of an entity are the links of its model. -/
theorem schema_relation? (c : Catalog) {entity : String} {m : Model} (h : c.model? entity = some m)
    (name : String) : c.schema.relation? entity name = .ok ((m.link? name).map c.relationOf) := by
  have hname : (fun r : Relation => r.name == name) ∘ c.relationOf = fun l : Link => l.name == name := by
    funext l
    simp [(c.relationOf_facts l).1]
  rw [Schema.relation?, c.schema_entity h]
  show Except.ok (((m.links.map c.relationOf).find? fun r => r.name == name)) = _
  rw [List.find?_map, hname]
  rfl

theorem link_of_relation {c : Catalog} {entity name : String} {m : Model} {e : Entity} {r : Relation}
    (hm : c.model? entity = some m) (he : c.schema.entity entity = .ok e) (hr : e.relation? name = some r) :
    ∃ l, m.link? name = some l ∧ c.relationOf l = r := by
  have hfound := c.schema_relation? hm name
  rw [Schema.relation?, he] at hfound
  exact Option.map_eq_some_iff.mp ((Except.ok.inj hfound).symm.trans hr)

/-- The entity of a named model has that model. -/
theorem entityOf_model (h : c.WellFormed) {name : String} (hm : ∃ e ∈ c.models, e.2.name = name) :
    ∃ target, c.model? (c.entityOf name) = some target ∧ c.named name = .ok target := by
  obtain ⟨e, he, rfl⟩ := hm
  have hfind : ∃ e', c.models.find? (fun e' => e'.2.name == e.2.name) = some e' := by
    rw [← Option.isSome_iff_exists, List.find?_isSome]
    exact ⟨e, he, by simp⟩
  have hlast : ∃ e', c.models.reverse.find? (fun e' => e'.2.name == e.2.name) = some e' := by
    rw [← Option.isSome_iff_exists, List.find?_isSome]
    exact ⟨e, by simpa using he, by simp⟩
  obtain ⟨⟨first, m⟩, hf⟩ := hfind
  obtain ⟨⟨last, m'⟩, hl⟩ := hlast
  have hmem := List.mem_of_find?_eq_some hf
  have hmem' : (last, m') ∈ c.models := by simpa using List.mem_of_find?_eq_some hl
  have hname : m.name = m'.name := by
    have hn := List.find?_some hf
    have hn' := List.find?_some hl
    simp only [beq_iff_eq] at hn hn'
    exact hn.trans hn'.symm
  have heq : m = m' := h.names _ hmem _ hmem' hname
  subst heq
  refine ⟨m, ?_, ?_⟩
  · have he : c.entityOf e.2.name = last := by rw [entityOf, hl]
    rw [he]
    exact model?_of_mem h.entities hmem'
  · rw [named, hf]
    rfl

/-- The model that a link of a model leads to. -/
theorem link_target (h : c.WellFormed) {entity name : String} {m : Model} {l : Link} (hm : c.model? entity = some m)
    (hl : m.link? name = some l) : ∃ target, c.model? (c.entityOf l.target) = some target ∧ c.named l.target = .ok target :=
  entityOf_model h (h.closed _ (mem_of_model? hm) l (List.mem_of_find?_eq_some hl))

theorem schema_describes (h : c.WellFormed) : c.schema.Describes c where
  column hm hl := by rw [c.schema_relation? hm, hl]; rfl
  link {entity m name l} hm hl := by
    obtain ⟨target, ht, hnamed⟩ := link_target h hm hl
    obtain ⟨_, htarget, hlist⟩ := c.relationOf_facts l
    exact ⟨c.relationOf l, target, by rw [c.schema_relation? hm, hl]; rfl, hlist, htarget ▸ ht, hnamed⟩
  apart hm := h.apart _ (mem_of_model? hm)

theorem schema_distinct (h : ∀ e ∈ c.models, (e.2.links.map (·.name)).Nodup) : c.schema.Distinct := by
  intro name e he
  obtain ⟨m, hm, rfl⟩ := c.model_of_entity he
  have hnames : ((c.entity name m).relations.map (·.name)) = m.links.map (·.name) := by
    rw [entity, List.map_map]
    exact List.map_congr_left fun l _ => (c.relationOf_facts l).1
  rw [hnames]
  exact h _ (mem_of_model? hm)

theorem schema_scalarsApart (h : c.WellFormed) : c.schema.ScalarsApart := by
  intro name e he f hf
  obtain ⟨m, hm, rfl⟩ := c.model_of_entity he
  obtain ⟨hin, hscalar⟩ := List.mem_filter.mp hf
  rcases List.mem_append.mp hin with hin | hin
  · obtain ⟨column, hcolumn, rfl⟩ := List.mem_map.mp hin
    have hrelation := c.schema_relation? hm column.name
    rw [h.apart _ (mem_of_model? hm) column hcolumn, Schema.relation?_of_entity he] at hrelation
    exact Except.ok.inj hrelation
  · obtain ⟨l, _, rfl⟩ := List.mem_map.mp hin
    cases hscalar

/-- The columns of a model stand first among the fields of its entity. -/
theorem entity_scalar {entity name : String} {m : Model} (h : (m.column? name).isSome = true) :
    ((c.entity entity m).field? name).all Field.isRelation = false := by
  obtain ⟨column, hcolumn⟩ := Option.isSome_iff_exists.mp h
  rw [Entity.field?, Catalog.entity, List.find?_append, List.find?_map]
  exact (congrArg (fun found : Option Column => ((found.map _).or _).all Field.isRelation) hcolumn).trans rfl

theorem schema_covers (h : c.WellFormed) : c.schema.Covers c where
  known {entity m} hm := by
    refine ⟨c.entity entity m, c.schema_entity hm, fun name hhas hfield => ?_⟩
    rcases hhas with hlink | hcolumn
    · have hrelation := c.schema_relation? hm name
      rw [Schema.relation?_of_entity (c.schema_entity hm)] at hrelation
      rw [Except.ok.inj hrelation, Option.isSome_map]
      exact hlink
    · rw [entity_scalar hcolumn] at hfield
      cases hfield
  apart := schema_scalarsApart h

end Catalog

end RecordGraph
