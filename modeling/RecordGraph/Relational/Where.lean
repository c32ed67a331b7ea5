import RecordGraph.Relational.Condition

/-!
# Filters as conditions

Reads a filter tree over a model as a condition. Names stand for columns, for links with a filter
of the linked rows, or for a whole key; `AND`, `OR` and `NOT` combine filters. A filter that is
empty holds of every row.
-/

namespace RecordGraph

private def invalidQuery (message : String) (details : Object := []) : Failure :=
  .faultOf .queryValidation message details

namespace Column

/-- The operand that a value is compared as. -/
def operand (c : Column) (v : Value) : Except Failure Cell :=
  (c.kind.bindOperand v).map c.kind.keep

/-- Equality with a value that was coerced. A truth value is written into the query as a number. -/
def equals (c : Column) (v : Value) (comparison : Comparison) : Condition :=
  match v with
  | .bool b => .compare comparison c.name (pure (c.kind.keep (.ofBool b)))
  | v => .compare comparison c.name (c.operand v)

/-- The column has the value; null is a value of its own. -/
def equalTo (c : Column) (v : Value) : Except Failure Condition := do
  match v with
  | .null => return .isNull c.name
  | v => return c.equals (← c.coerce v) .equal

def unequalTo (c : Column) (v : Value) : Except Failure Condition := do
  match v with
  | .null => return .negation (.isNull c.name)
  | v => return c.equals (← c.coerce v) .unequal

/-- The column comes before or after the value. Truth values and null have no order. -/
def ordered (c : Column) (comparison : Comparison) (v : Value) : Except Failure Condition := do
  match ← c.coerce v with
  | .null | .bool _ => throw (refused "Only equality is defined for null and truth values")
  | v => return .compare comparison c.name (c.operand v)

/-- The column has one of the values. Without a null among them they are all bound by the kind of
the first one. -/
def oneOf (c : Column) (vs : List Value) : Except Failure Condition := do
  let vs ← vs.mapM c.coerce
  if vs.any Value.isNull then
    if vs.any fun v => v.isList || v.isObject then throw .illFormed
    else return .among c.name (vs.map c.operand)
  else
    let kind := (vs.head?.bind ColumnKind.ofValue?).getD c.kind
    return .among c.name (vs.map fun v => (kind.bind v).map c.kind.keep)

/-- An operator with an operand that is not a list of operators. -/
def operator (c : Column) (op : String) (v : Value) : Except Failure Condition :=
  match op with
  | "equals" => c.equalTo v
  | "not" => c.unequalTo v
  | "in" => c.oneOf v.asItems
  | "notIn" => .negation <$> c.oneOf v.asItems
  | "lt" => c.ordered .less v
  | "lte" => c.ordered .atMost v
  | "gt" => c.ordered .greater v
  | "gte" => c.ordered .atLeast v
  | "contains" => pure (.finds .anywhere c.name v.shown)
  | "startsWith" => pure (.finds .atStart c.name v.shown)
  | "endsWith" => pure (.finds .atEnd c.name v.shown)
  | "mode" => pure .always
  | op => throw (invalidQuery ("Unknown filter operator '" ++ op ++ "'") [("target", .text c.name)])

mutual

def operators (c : Column) : List (String × Value) → Except Failure (List Condition)
  | [] => pure []
  | (op, v) :: rest => return (← operation c op v) :: (← operators c rest)

/-- One operator; `not` denies all the operators of its operand. -/
def operation (c : Column) (op : String) : Value → Except Failure Condition
  | .object nested =>
    if op = "not" then (fun cs => .negation (.all cs)) <$> operators c nested
    else c.operator op (.object nested)
  | v => c.operator op v

end

/-- What a filter tree says of a column: it has a value, or operators hold of it. -/
def condition (c : Column) (v : Value) : Except Failure Condition :=
  match v with
  | .object members => Condition.all <$> c.operators members
  | v => c.equalTo v

end Column

namespace Model

/-- What an object says of the columns that it names, if it names nothing else: a compound key. -/
def compoundKey? (m : Model) (v : Value) : Option (List (Column × Value)) :=
  match v with
  | .object (member :: more) => (member :: more).mapM fun (k, v) => (m.column? k).map (·, v)
  | _ => none

end Model

namespace Link

/-- The words that say of how many linked rows a filter is to hold. -/
def quantifiers : List String := ["some", "every", "none"]

/-- The words that say whether a filter is to hold of the one linked row. -/
def assertions : List String := ["is", "isNot"]

def exists_ (l : Link) : Condition := .linked l .always

end Link

namespace Catalog

variable (c : Catalog)

mutual

/-- The condition of a filter tree. -/
def condition (m : Model) : Value → Except Failure Condition
  | .object members => Condition.all <$> conditions m members
  | v => if v.isPresent then throw .illFormed else pure .always

def conditionList (m : Model) : List Value → Except Failure (List Condition)
  | [] => pure []
  | v :: vs => return (← condition m v) :: (← conditionList m vs)

def conditions (m : Model) : List (String × Value) → Except Failure (List Condition)
  | [] => pure []
  | (key, v) :: rest => do
    let parts (_ : Unit) : Except Failure (List Condition) :=
      match v with
      | .null => pure []
      | .list vs => conditionList m vs
      | v => (fun part => [part]) <$> condition m v
    let own : Condition ← match key with
      | "AND" => Condition.all <$> parts ()
      | "OR" => (fun ps => if ps.isEmpty then .always else .any ps) <$> parts ()
      | "NOT" => (fun ps => .all (ps.map .negation)) <$> parts ()
      | key =>
        match m.link? key with
        | some l => do
          let target ← c.named l.target
          let invalid := invalidQuery ("Invalid filter for '" ++ l.name ++ "'")
          match v with
          | .object members =>
            let words := if l.isList then Link.quantifiers else Link.assertions
            if members.any fun (k, _) => words.contains k then
              Condition.all <$> linkConditions l target members
            else (fun cs => .linked l (.all cs)) <$> conditions target members
          | .null => if l.isList then throw invalid else pure (.negation l.exists_)
          | _ => throw invalid
        | none =>
          match m.column? key with
          | some column => column.condition v
          | none =>
            match m.compoundKey? v with
            | some members => Condition.all <$> members.mapM fun (column, v) => column.equalTo v
            | none =>
              throw (invalidQuery ("Unknown field '" ++ key ++ "' on " ++ m.name) [("target", .text key)])
    return own :: (← conditions m rest)

/-- The conditions of the words on the rows of a link. -/
def linkConditions (l : Link) (target : Model) : List (String × Value) → Except Failure (List Condition)
  | [] => pure []
  | (word, v) :: rest => do
    let own : Condition ← match l.isList, word with
      | true, "some" => .linked l <$> condition target v
      | true, "none" => (fun p => .negation (.linked l p)) <$> condition target v
      | true, "every" => (fun p => .negation (.linked l (.negation p))) <$> condition target v
      | false, "is" =>
        if v.isNull then pure (.negation l.exists_) else .linked l <$> condition target v
      | false, "isNot" =>
        if v.isNull then pure l.exists_ else (fun p => .negation (.linked l p)) <$> condition target v
      | _, word => throw (invalidQuery ("Unknown relation filter '" ++ word ++ "'"))
    return own :: (← linkConditions l target rest)

end

end Catalog

end RecordGraph
