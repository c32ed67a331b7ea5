import RecordGraph.Access.Principal

/-!
# Access rules

A rule answers for one entity which rows a principal may read, update and delete, which fields it
never sees, and whether it may create a record. An answer is `true` for no restriction, `false` for
none at all, or a filter of rows; a rule that is silent on a question does not restrict.
-/

namespace RecordGraph

structure Rule where
  mayCreate : Option (Principal → Value → Except Failure Value) := none
  readable : Option (Principal → Except Failure Value) := none
  updatable : Option (Principal → Except Failure Value) := none
  deletable : Option (Principal → Except Failure Value) := none
  omitted : Option (Principal → Except Failure Value) := none
deriving Inhabited

namespace Rule

/-- The names in an answer: the items of a list, the characters of a text, the keys of an object;
an answer that counts as absent names nothing. -/
def namesOf (answer : Value) : Except Failure Value :=
  match answer with
  | .list items => pure (.list items)
  | .text s => pure (.list (s.toList.map fun c => .text (String.singleton c)))
  | .object members => pure (.list (members.map fun kv => .text kv.1))
  | v => if v.isPresent then throw .illFormed else pure (.list [])

/-- The rule with its omissions read as names, whatever collection they are given in. -/
def collecting (r : Rule) : Rule :=
  { r with omitted := r.omitted.map fun ask p => do namesOf (← ask p) }

end Rule

/-- The rules by entity. An entity without a rule is not restricted. -/
structure Rules where
  entries : List (String × Rule) := []
deriving Inhabited

namespace Rules

def get? (rs : Rules) (entity : String) : Option Rule := rs.entries.lookup entity

def contains (rs : Rules) (entity : String) : Bool := (rs.get? entity).isSome

/-- Gives an entity its rule, in place of the one it had. -/
def register (rs : Rules) (entity : String) (r : Rule) : Rules :=
  ⟨(rs.entries.filter fun kv => kv.1 != entity) ++ [(entity, r)]⟩

end Rules

end RecordGraph
