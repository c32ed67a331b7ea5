import RecordGraph.Access.Rule

/-!
# Rules as tables

A rule can be written as data: for each question a list of cases, of which the first one decides
whose role the principal has, or that names no role. In an answer, an object of the one member
`$user` stands for what is known of the principal under that name.
-/

namespace RecordGraph

namespace Rule

mutual

/-- An answer with what is known of the principal put in. -/
def fill (p : Principal) : Value → Except Failure Value
  | .object [("$user", .text name)] => p.lookup name
  | .object o => Value.object <$> fillMembers p o
  | .list vs => Value.list <$> fillItems p vs
  | v => pure v

def fillItems (p : Principal) : List Value → Except Failure (List Value)
  | [] => pure []
  | v :: vs => return (← fill p v) :: (← fillItems p vs)

def fillMembers (p : Principal) : List (String × Value) → Except Failure (List (String × Value))
  | [] => pure []
  | (k, v) :: rest => return (k, ← fill p v) :: (← fillMembers p rest)

end

private def at_ (v : Value) (key : String) : Option Value :=
  match v with
  | .object o => Object.get? key o
  | _ => none

/-- The answer of the case that decides; without one the rule is silent. -/
def decide (cases : Value) (p : Principal) : Except Failure Value :=
  match cases.asItems.find? fun c => (at_ c "role").all p.hasRole with
  | some c => fill p ((at_ c "value").getD .null)
  | none => pure .null

/-- Who may create a record: principals with one of some roles, or those who are known by what the
record has in a field. -/
def creators (table : Value) (p : Principal) (payload : Value) : Except Failure Value := do
  match at_ table "roles" with
  | some roles => return .bool (roles.asItems.any p.hasRole)
  | none =>
    let .text field := (at_ table "field").getD .null | throw .illFormed
    let .text name := (at_ table "user").getD .null | throw .illFormed
    let given ← match payload with
      | .object o => pure (Object.get o field)
      | v => if v.isPresent then throw .illFormed else pure .null
    return .bool (given.same (← p.lookup name))

def ofTable (table : Value) : Rule :=
  let r : Rule := {
    mayCreate := (at_ table "can_create").map creators
    readable := (at_ table "access").map decide
    updatable := (at_ table "update").map decide
    deletable := (at_ table "delete").map decide
    omitted := (at_ table "omit").map decide }
  match at_ table "type" with
  | some (.text "function") => r.collecting
  | _ => r

end Rule

def Rules.ofTables (tables : Object) : Rules :=
  tables.foldl (fun rs (entity, table) => rs.register entity (Rule.ofTable table)) {}

end RecordGraph
