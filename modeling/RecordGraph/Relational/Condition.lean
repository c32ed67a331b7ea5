import RecordGraph.Relational.Database

/-!
# Conditions

A condition says of a row that it holds, that it fails, or that this is unknown because a cell is
null. Only rows of which it holds are selected. Whether linked rows exist is never unknown.
-/

namespace RecordGraph

inductive Truth where
  | holds
  | fails
  | unknown
deriving Repr, DecidableEq, Inhabited

namespace Truth

def ofBool (b : Bool) : Truth := if b then .holds else .fails

def not : Truth → Truth
  | .holds => .fails
  | .fails => .holds
  | .unknown => .unknown

def and : Truth → Truth → Truth
  | .fails, _ | _, .fails => .fails
  | .unknown, _ | _, .unknown => .unknown
  | .holds, .holds => .holds

def or (a b : Truth) : Truth := (a.not.and b.not).not

end Truth

/-- How a cell is compared with an operand. -/
inductive Comparison where
  | equal
  | unequal
  | less
  | atMost
  | greater
  | atLeast
deriving Repr, DecidableEq, Inhabited

namespace Comparison

def admits : Comparison → Ordering → Bool
  | .equal, o => o == .eq
  | .unequal, o => o != .eq
  | .less, o => o == .lt
  | .atMost, o => o != .gt
  | .greater, o => o == .gt
  | .atLeast, o => o != .lt

/-- Compares two cells; with a null the outcome is unknown. -/
def eval (c : Comparison) (a b : Cell) : Truth :=
  if a.isNull || b.isNull then .unknown else .ofBool (c.admits (a.order b))

end Comparison

/-- Where a text is looked for. The case of ASCII letters does not count. -/
inductive TextMatch where
  | anywhere
  | atStart
  | atEnd
deriving Repr, DecidableEq, Inhabited

namespace TextMatch

private def startsAlike : List Char → List Char → Bool
  | [], _ => true
  | _ :: _, [] => false
  | p :: ps, c :: cs => sameLetter p c && startsAlike ps cs

private def occursAlike (part : List Char) : List Char → Bool
  | [] => part.isEmpty
  | c :: cs => startsAlike part (c :: cs) || occursAlike part cs

def finds : TextMatch → List Char → List Char → Bool
  | .anywhere, part, text => occursAlike part text
  | .atStart, part, text => startsAlike part text
  | .atEnd, part, text => startsAlike part.reverse text.reverse

def eval (t : TextMatch) (part : String) (cell : Cell) : Truth :=
  if cell.isNull then .unknown else .ofBool (t.finds part.toList cell.shown.toList)

end TextMatch

inductive Condition where
  | isNull (column : String)
  | compare (comparison : Comparison) (column : String) (operand : Except Failure Cell)
  /-- Equality with one of the operands. -/
  | among (column : String) (operands : List (Except Failure Cell))
  | finds (place : TextMatch) (column part : String)
  | all (conditions : List Condition)
  | any (conditions : List Condition)
  | negation (condition : Condition)
  /-- There is a linked row of which the condition holds. -/
  | linked (link : Link) (condition : Condition)
deriving Inhabited

namespace Condition

def always : Condition := .all []

/-- The cell of an operand that was taken. -/
def cellOf (operand : Except Failure Cell) : Cell :=
  match operand with
  | .ok c => c
  | .error _ => .null

def isAmong (cell : Cell) (operands : List (Except Failure Cell)) : Truth :=
  operands.foldl (fun t o => t.or (Comparison.equal.eval cell (cellOf o))) .fails

mutual

def eval (db : Database) (row : Row) : Condition → Truth
  | .isNull column => .ofBool (row.get column).isNull
  | .compare c column operand => c.eval (row.get column) (cellOf operand)
  | .among column operands => isAmong (row.get column) operands
  | .finds place column part => place.eval part (row.get column)
  | .all cs => evalAll db row cs
  | .any cs => evalAny db row cs
  | .negation c => (eval db row c).not
  | .linked l c => .ofBool ((db.linkedRows l row).any fun other => eval db other c == .holds)

def evalAll (db : Database) (row : Row) : List Condition → Truth
  | [] => .holds
  | c :: cs => (eval db row c).and (evalAll db row cs)

def evalAny (db : Database) (row : Row) : List Condition → Truth
  | [] => .fails
  | c :: cs => (eval db row c).or (evalAny db row cs)

end

/-- Whether a row is selected. -/
def selects (db : Database) (c : Condition) (row : Row) : Bool := c.eval db row == .holds

mutual

/-- The outcome of a condition that names no column. One that fails settles a conjunction, and one
that holds settles an alternative, whatever stands beside it. -/
def constant? : Condition → Option Bool
  | .all cs => constantAll? cs
  | .any cs => constantAny? cs
  | .negation c => (constant? c).map (!·)
  | _ => none

def constantAll? : List Condition → Option Bool
  | [] => some true
  | c :: cs =>
    match constant? c, constantAll? cs with
    | some false, _ | _, some false => some false
    | some true, rest => rest
    | none, _ => none

def constantAny? : List Condition → Option Bool
  | [] => some false
  | c :: cs =>
    match constant? c, constantAny? cs with
    | some true, _ | _, some true => some true
    | some false, rest => rest
    | none, _ => none

end

mutual

/-- The operands, in the order in which they are handed to the engine. Those of a part that is
settled without them are not handed over. -/
def operands : Condition → List (Except Failure Cell)
  | .isNull _ | .finds .. => []
  | .compare _ _ operand => [operand]
  | .among _ os => os
  | .all cs => if (constantAll? cs).isSome then [] else operandsOf cs
  | .any cs => if (constantAny? cs).isSome then [] else operandsOf cs
  | .negation c | .linked _ c => operands c

def operandsOf : List Condition → List (Except Failure Cell)
  | [] => []
  | c :: cs => operands c ++ operandsOf cs

end

/-- Hands the operands to the engine. One that cannot be turned into what its column takes is found
out before any that the engine itself refuses. -/
def bind (c : Condition) : Except Failure Unit := do
  let turned := c.operands.filter fun
    | .error (.engine e) => e.kind == .statement
    | _ => false
  for operand in turned ++ c.operands do
    let _ ← operand

end Condition

namespace Database

/-- The rows of a model of which a condition holds, in the order of their keys. -/
def select (db : Database) (m : Model) (c : Condition) : List Row := (db.rows m).filter (c.selects db)

end Database

end RecordGraph
