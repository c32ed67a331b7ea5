import RecordGraph.Failure.Basic
import RecordGraph.Text.Folding
import RecordGraph.Text.Printable
import RecordGraph.Text.Split

/-!
# Faults of an engine

The class of an engine error and the words of its message tell the fault that it stands for. The
message of a duplicate also names the columns, in one of the ways in which engines write it.
-/

namespace RecordGraph

/-- What comes after each occurrence of a word. -/
private def restsAfter (word : List Char) : List Char → List (List Char)
  | [] => if word.isEmpty then [[]] else []
  | c :: cs =>
    match dropStart? word (c :: cs) with
    | some rest => rest :: restsAfter word cs
    | none => restsAfter word cs

private def findAfter {α : Type} (word : String) (cs : List Char) (read? : List Char → Option α) :
    Option α :=
  (restsAfter word.toList cs).findSome? read?

/-- A character of a name; every printable character outside ASCII is taken for one. -/
private def isNameChar (c : Char) : Bool :=
  c.isAlphanum || c == '_' || c == '.' || (127 < c.toNat && isPrintable c && !isBlank c)

private def joinedNames (fuel : Nat) (cs : List Char) : List Char :=
  match fuel, cs with
  | n + 1, ',' :: ' ' :: rest =>
    match rest.span isNameChar with
    | ([], _) => []
    | (name, more) => ',' :: ' ' :: name ++ joinedNames n more
  | _, _ => []

/-- `table.column, table.column`. -/
private def columnNames? (cs : List Char) : Option (List Char) :=
  match cs.span isNameChar with
  | ([], _) => none
  | (name, rest) => some (name ++ joinedNames rest.length rest)

/-- The text up to a mark, and the text after it if it goes on with `next`. -/
private def upTo? (mark : Char) (next : String) (cs : List Char) : Option (List Char × List Char) :=
  match cs.span (· != mark) with
  | (text, rest) => (dropStart? next.toList rest).map fun after => (text, after)

/-- The columns of a duplicate and, where it is written, the value. -/
private def duplicate? (message : List Char) : Option (List Char × Option (List Char)) :=
  (findAfter "UNIQUE constraint failed: " message fun cs => (columnNames? cs).map (·, none)).or
    ((findAfter "Key (" message fun cs => do
      let (target, rest) ← upTo? ')' ")=(" cs
      let (value, _) ← upTo? ')' ") already exists" rest
      if target.isEmpty then none else some (target, some value)).or
    (findAfter "Duplicate entry '" message fun cs => do
      let (value, rest) ← upTo? '\'' "' for key '" cs
      let (target, _) ← upTo? '\'' "'" rest
      if target.isEmpty then none else some (target, some value)))

/-- The last part of each of the listed names. -/
private def columnsOf (target : List Char) : String :=
  let last (name : List Char) : List Char := trim ((splitAt '.' name).getLast?.getD [])
  .ofList (joinWith [',', ' '] ((splitAt ',' target).map last))

private def duplicateDetails (message : List Char) : Object :=
  match duplicate? message with
  | none => []
  | some (target, value) =>
    ("target", .text (columnsOf target)) ::
      match value with
      | some v => [("value", .text (.ofList v))]
      | none => []

namespace StorageFault

/-- The fault that an engine error stands for. The entity that was at work is told for all faults
but those of the connection. -/
def ofEngine (entity : Option String) (e : EngineError) : StorageFault :=
  let words := lowerText e.message
  let mentions (word : String) : Bool := occursIn word.toList words
  let place : Object := [("entity", (entity.map Value.text).getD .null)]
  let fault (code : FaultCode) (details : Object) : StorageFault := ⟨.known code, e.message, details, some e⟩
  match e.kind with
  | .integrity =>
    if mentions "unique" || mentions "duplicate" then
      fault .uniqueViolation (place ++ duplicateDetails e.message.toList)
    else if mentions "foreign key" then fault .foreignKeyViolation place
    else if mentions "not null" || mentions "null value" then fault .nullViolation place
    else fault .constraintViolation place
  | .timeout => fault .poolTimeout []
  | .data =>
    if mentions "too long" then fault .valueTooLong place
    else if mentions "out of range" then fault .valueOutOfRange place
    else fault .invalidValue place
  | .operational =>
    if mentions "locked" || mentions "deadlock" || mentions "could not serialize" then fault .writeConflict []
    else if mentions "no such table" then fault .tableNotFound place
    else if mentions "no such column" then fault .columnNotFound place
    else if mentions "timeout" then fault .poolTimeout []
    else fault .connectionFailed []
  | .programming =>
    if mentions "does not exist" && mentions "relation" then fault .tableNotFound place
    else if mentions "does not exist" && mentions "column" then fault .columnNotFound place
    else fault .queryValidation place
  | .driver => if e.connectionLost then fault .connectionFailed [] else fault .transactionError place
  | .statement => fault .transactionError place

end StorageFault

end RecordGraph
