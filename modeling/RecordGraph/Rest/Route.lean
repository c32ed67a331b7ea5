import RecordGraph.Rest.Request

/-!
# Routes

What a method and a path address: the health of the service, the records of an entity, their count,
a batch of them, or one of them.
-/

namespace RecordGraph

namespace Rest

inductive Endpoint where
  | health
  | list (entity : String)
  | count (entity : String)
  | get (entity id : String)
  | create (entity : String)
  | batch (entity : String)
  | upsert (entity : String)
  | update (entity id : String)
  | delete (entity id : String)
deriving Repr, DecidableEq, Inhabited

inductive RouteError where
  | notFound
  | methodNotAllowed
deriving Repr, DecidableEq, Inhabited

/-- What can be done at a path, by method. The first that fits counts. -/
def endpointsAt (base path : List Char) : List (String × Endpoint) :=
  let health := if path = "/health".toList then [("GET", Endpoint.health)] else []
  let records : List (String × Endpoint) :=
    match dropStart? (base ++ ['/']) path with
    | none => []
    | some rest =>
      match (splitAt '/' rest).map String.ofList with
      | [entity] =>
        if entity = "" then []
        else [("GET", .list entity), ("POST", .create entity), ("PUT", .upsert entity)]
      | [entity, last] =>
        if entity = "" then []
        else if last = "" then []
        else
          (if last = "count" then [("GET", .count entity)] else [])
          ++ (if last = "batch" then [("POST", .batch entity)] else [])
          ++ [("GET", .get entity last), ("PATCH", .update entity last), ("DELETE", .delete entity last)]
      | _ => []
  health ++ records

/-- The endpoint of a method and a path. A slash at the end is passed over. -/
def route (base method path : String) : Except RouteError Endpoint :=
  let at_ (path : List Char) := endpointsAt base.toList path
  let found := match at_ path.toList with
    | [] => if endsWith ['/'] path.toList then at_ path.toList.dropLast else []
    | found => found
  match found with
  | [] => throw .notFound
  | found => match found.lookup method with
    | some endpoint => pure endpoint
    | none => throw .methodNotAllowed

end Rest

end RecordGraph
