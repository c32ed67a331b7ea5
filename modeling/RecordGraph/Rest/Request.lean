import RecordGraph.Access.Principal
import RecordGraph.Text.Numeral
import RecordGraph.Text.Folding

/-!
# Requests

A request over HTTP, and what its texts stand for: the principal in its headers, numbers and keys in
its parameters.
-/

namespace RecordGraph

namespace Rest

structure Request where
  method : String
  path : String
  /-- The query parameters; the last of several with one name counts. -/
  params : List (String × String) := []
  headers : List (String × String) := []
  body : Option Value := none
deriving Inhabited

namespace Request

def param? (r : Request) (name : String) : Option String := r.params.reverse.lookup name

/-- A parameter as a value; null if it is missing. -/
def param (r : Request) (name : String) : Value := ((r.param? name).map Value.text).getD .null

end Request

/-- A header by its name, in any case. -/
def header? (headers : List (String × String)) (name : String) : Option String :=
  (headers.find? fun (n, _) => lowerText n == name.toList).map Prod.snd

/-- The parts between commas, without blanks around them; empty ones are dropped. -/
def commaParts (s : String) : List String := ((splitText ',' s).map trimText).filter (· != "")

/-- A text of digits as an integer. Some characters are digits without having a value. -/
def digitsOrText (digits whole : List Char) : Except Failure Value :=
  if !digits.isEmpty && digits.all isDigit then
    match readInteger? whole with
    | some n => pure (.int n)
    | none => throw .illFormed
  else pure (.text (.ofList whole))

/-- The principal that the headers name: an id, a number if it is written as one, and roles. -/
def principalOf (headers : List (String × String)) : Except Failure Principal := do
  let id ← match header? headers "x-user-id" with
    | none => pure .null
    | some s => digitsOrText s.toList s.toList
  let roles := (commaParts ((header? headers "x-user-role").getD "")).map Value.text
  return { id, role := roles.headD .null, roles }

/-- A numeric parameter as an integer; any other text is left for validation. -/
def integerParam (s : Option String) : Except Failure Value :=
  match s with
  | none => pure .null
  | some s => do
    let stripped := trim s.toList
    match ← digitsOrText (stripped.dropWhile (· == '-')) stripped with
    | .int n => return .int n
    | _ => return .text s

/-- The unique key of a parameter: a field, or several with commas between them. -/
def uniqueKeyParam (s : Option String) : Value :=
  match s with
  | none | some "" => .null
  | some s =>
    match commaParts s with
    | [field] => .text field
    | fields => .texts fields

end Rest

end RecordGraph
