import RecordGraph.Mutation.Payload
import RecordGraph.Proofs.Access.Merge
import RecordGraph.Proofs.Schema.Names

/-!
# Parts of operations

What stands in a transformed payload: the conditions that find records to connect and rows to
update, and the bodies of records to create and of changes, under the relations of the bodies that
they stand in. Which of them a writer is permitted is said once for a part and follows for all that
stands in a body.
-/

namespace RecordGraph

/-- A part of an operation on the records of a relation. -/
inductive Part where
  /-- The condition that finds a record to connect. -/
  | connected (condition : Value)
  /-- The condition that finds a row to update. -/
  | updated (condition : Value)
  /-- The body of a record to create. -/
  | created (body : Value)
  /-- The body of the changes to a record. -/
  | changed (body : Value)

namespace Part

/-- The members of an item that are parts of their own. -/
def members : String → List (String × (Value → Part))
  | "connectOrCreate" => [("where", connected), ("create", created)]
  | "upsert" => [("where", updated), ("create", created), ("update", changed)]
  | "update" => [("where", updated), ("data", changed)]
  | _ => []

/-- The parts of one item of an operation. -/
def ofItem : String → Value → List Part
  | "connect", v => [connected v]
  | "create", v => [created v]
  | op, .object o => (members op).filterMap fun (key, part) => (Object.get? key o).map part
  | _, _ => []

/-- The parts of an object of operations. An operation has an item or a list of items. -/
def ofOperations (ops : Object) : List Part :=
  ops.flatMap fun (op, v) => v.asItems.flatMap (ofItem op)

def body? : Part → Option Value
  | created body | changed body => some body
  | connected _ | updated _ => none

def condition? : Part → Option Value
  | connected condition | updated condition => some condition
  | created _ | changed _ => none

end Part

/-- The parts that stand under a relation, in a body of an entity or in a body inside it. -/
inductive Occurs (s : Schema) : String → Object → Relation → Part → Prop
  | here {entity body key ops r part} (hr : s.relation? entity key = .ok (some r))
      (hm : (key, .object ops) ∈ body) (hp : part ∈ Part.ofOperations ops) :
      Occurs s entity body r part
  | inside {entity body key ops r outer inner r' part} (hr : s.relation? entity key = .ok (some r))
      (hm : (key, .object ops) ∈ body) (hp : outer ∈ Part.ofOperations ops)
      (hb : outer.body? = some (.object inner)) (h : Occurs s r.target inner r' part) :
      Occurs s entity body r' part

/-- The values of relations in a payload of an entity, at any depth. -/
inductive Nested (s : Schema) : String → Object → Value → Prop
  | here {entity body key v r} (hr : s.relation? entity key = .ok (some r)) (hm : (key, v) ∈ body) :
      Nested s entity body v
  | inside {entity body key v r item w} (hr : s.relation? entity key = .ok (some r))
      (hm : (key, v) ∈ body) (hi : .object item ∈ v.asItems) (h : Nested s r.target item w) :
      Nested s entity body w

namespace Writer

variable (w : Writer)

/-- The rows that satisfy a condition are open to an action of the writer. -/
def Confined (action : Action) (entity : String) (condition : Value) : Prop :=
  w.view.rules.Confined action entity w.view.user condition

/-- What a writer may do under a relation. -/
def Permitted (r : Relation) : Part → Prop
  | .connected condition => w.Confined .read r.target condition
  | .updated condition => w.Confined .update r.target condition
  | .created _ => ∃ payload, w.view.canCreate r.target payload = .ok true
  | .changed _ => True

/-- All that stands in a body is permitted. -/
def Permits (entity : String) (body : Object) : Prop :=
  ∀ r part, Occurs w.view.schema entity body r part → w.Permitted r part

/-- All that stands in the value of a relation is permitted. -/
def PermitsUnder (r : Relation) (v : Value) : Prop :=
  ∀ ops, v = .object ops → ∀ part ∈ Part.ofOperations ops,
    w.Permitted r part ∧ ∀ inner, part.body? = some (.object inner) → w.Permits r.target inner

/-- No value of a relation in a payload is an object of operations. -/
def Plain (entity : String) (body : Object) : Prop :=
  ∀ v, Nested w.view.schema entity body v → Payload.isOperation v = false

end Writer

end RecordGraph
