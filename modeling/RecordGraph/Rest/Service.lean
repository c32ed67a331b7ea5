import RecordGraph.Operation.BatchUpsert
import RecordGraph.Operation.Read
import RecordGraph.Rest.Route

/-!
# The service

Answers requests with an engine. Whatever goes wrong becomes an answer too: request errors with
their own status and message, all else as it is disclosed.
-/

namespace RecordGraph

namespace Rest

structure Response where
  status : Int
  body : Value
deriving Inhabited

structure Service (σ : Type) where
  engine : Engine σ
  name : String
  /-- What every path of the records starts with. -/
  base : String := ""

namespace Service

variable {σ : Type} (s : Service σ)

private def detail (status : Int) (text : String) : Response :=
  ⟨status, .object [("detail", .text text)]⟩

/-- An outcome that has to be a record. -/
private def recordOf : Outcome → Except Failure Value
  | .value (.object o) => pure (.object o)
  | _ => throw .illFormed

def pageOf : Outcome → Except Failure Value
  | .page p => pure (.object p.envelope)
  | _ => throw .illFormed

private def batchOf : Outcome → Except Failure Value
  | .batch b => pure (.object b.toObject)
  | _ => throw .illFormed

private def countOf : Outcome → Except Failure Value
  | .value v => pure (.object [("count", v)])
  | _ => throw .illFormed

def failed (f : Failure) : Response :=
  match f with
  | .request e => ⟨e.status, .object e.body⟩
  | f =>
    let e := s.engine.disclosure.requestError f
    ⟨e.status, .object [("status_code", .int e.status), ("message", .text e.message)]⟩

private def unprocessable : Response := ⟨422, .null⟩

/-- Runs an operation; `show_` makes the body of what it ends with. -/
def answer (status : Int) (show_ : Outcome → Except Failure Value) (act : Act σ Outcome) :
    Act σ Response := do
  match ← (do let outcome ← act; Act.ofExcept (show_ outcome) : Act σ Value).attempt with
  | .ok body => return ⟨status, body⟩
  | .error f => return s.failed f

/-- Does the work of an endpoint of an entity for a user. -/
def serve (r : Request) (user : User) (endpoint : Endpoint) : Act σ Response :=
  let e := s.engine
  let uniqueKey := uniqueKeyParam (r.param? "uniqueKey")
  let withObject (use : Value → Act σ Response) : Act σ Response :=
    match r.body with
    | some (.object o) => use (.object o)
    | _ => pure unprocessable
  match endpoint with
  | .health => pure ⟨200, .object [("status", .text "ok"), ("service", .text s.name)]⟩
  | .list entity => s.answer 200 pageOf do
    let limit ← integerParam (r.param? "limit")
    let offset ← integerParam (r.param? "offset")
    e.getMany entity user {
      query := r.param "q"
      includes := r.param "include"
      fields := r.param "fields"
      limit
      offset := if offset.isPresent then offset else .int 0
      sortBy := r.param "sortBy"
      sortOrder := .text ((r.param? "sortOrder").getD "asc") }
  | .count entity => s.answer 200 countOf (e.count entity user (r.param "q"))
  | .get entity id => s.answer 200 recordOf
    (e.get entity user { id := .text id, includes := r.param "include", fields := r.param "fields" })
  | .create entity => withObject fun data => s.answer 201 recordOf (e.create entity user data)
  | .upsert entity => withObject fun data =>
    s.answer 200 recordOf (e.upsert entity user data uniqueKey)
  | .update entity id => withObject fun data =>
    s.answer 200 recordOf (e.update entity user (.text id) data)
  | .delete entity id => s.answer 200 recordOf (e.delete entity user (.text id))
  | .batch entity =>
    let follow := match r.param? "validateRelation" with
      | none => some false
      | some text => Value.toSwitch? (.text text)
    match r.body, follow with
    | some (.list rows), some followRelations =>
      if rows.all Value.isObject then
        s.answer 200 batchOf (e.upsertMany entity user { rows, uniqueKey, followRelations })
      else pure unprocessable
    | _, _ => pure unprocessable

def entityOf : Endpoint → Option String
  | .health => none
  | .list n | .count n | .get n _ | .create n | .batch n | .upsert n | .update n _ | .delete n _ =>
    some n

/-- Answers a request. The entity is looked up before the principal, and both before the body and
the parameters. -/
def respond (r : Request) : Act σ Response :=
  match route s.base r.method r.path with
  | .error .notFound => pure (detail 404 "Not Found")
  | .error .methodNotAllowed => pure (detail 405 "Method Not Allowed")
  | .ok endpoint =>
    match entityOf endpoint with
    | none => s.serve r .system endpoint
    | some entity =>
      if !s.engine.schema.hasEntity entity then
        pure (s.failed (.request (.notFound "entity_not_found" entity)))
      else match principalOf r.headers with
        | .error f => pure (s.failed f)
        | .ok p => s.serve r (.principal p) endpoint

end Service

/-- Whether a line of the access log is kept: requests for the health of the service are not. -/
def keepsLogLine (line : String) : Bool :=
  !occursIn "\"/health".toList line.toList && !occursIn " /health ".toList line.toList

end Rest

end RecordGraph
