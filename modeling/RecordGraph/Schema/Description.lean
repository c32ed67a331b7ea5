import RecordGraph.Schema.Basic

/-!
# Descriptions of a schema

Fields, relations and entities as objects, for callers that want to look at a schema.
-/

namespace RecordGraph

private def optionalText (s : Option String) : Value := (s.map Value.text).getD .null

def Field.describe (f : Field) : Value :=
  .object [("name", .text f.name), ("kind", .text (if f.isRelation then "relation" else "scalar")),
    ("type", .text f.type), ("nullable", .bool f.nullable), ("unique", .bool f.unique),
    ("primary_key", .bool f.isKey), ("is_list", .bool f.isList), ("required", .bool f.required),
    ("is_relation", .bool f.isRelation)]

def Relation.describe (r : Relation) : Value :=
  .object [("name", .text r.name), ("target", .text r.target),
    ("cardinality", .text (if r.isList then "many" else "one")), ("fields", .texts r.fields),
    ("references", .texts r.references), ("is_list", .bool r.isList),
    ("field", optionalText r.field?), ("foreign_key", optionalText r.foreignKey?)]

/-- The key of an entity: a name, or the names of a key of several fields. -/
def Entity.describeKey (e : Entity) : Value :=
  if e.isComposite then .texts e.keys else .text e.firstKey

def Entity.describe (e : Entity) : Value :=
  .object [("name", .text e.name), ("keys", .texts e.keys), ("key_name", .text e.keyName),
    ("primary_key", e.describeKey), ("is_composite", .bool e.isComposite),
    ("fields", .list (e.fields.map Field.describe)),
    ("relations", .list (e.relations.map Relation.describe)),
    ("scalars", .texts (e.scalars.map (·.name)))]

end RecordGraph
