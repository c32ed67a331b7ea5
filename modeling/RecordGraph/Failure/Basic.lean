import RecordGraph.Failure.Code
import RecordGraph.Value.Basic

/-!
# Failures

A request that cannot be served ends with a request error, which has a status and a message key.
Storages fail with faults; engines under a storage fail in their own words. A schema or a hook can
be declared wrongly, and a payload of the wrong shape can be found out in the middle of the work:
that is the failure `illFormed`, which has no message of its own.
-/

namespace RecordGraph

/-- Why a request was refused. -/
inductive RequestErrorKind where
  | general
  | validation
  | access
  | notFound
  | conflict
  | storage (faultCode : Option String)
deriving Repr, DecidableEq, Inhabited

structure RequestError where
  kind : RequestErrorKind
  status : Int
  /-- The message key, or the message itself for a storage error. -/
  message : String
  data : Option Object := none
deriving Repr, Inhabited

namespace RequestError

def validation (message : String) (data : Option Object := none) : RequestError :=
  ⟨.validation, 400, message, data⟩

def access (message : String) (entity : String) : RequestError :=
  ⟨.access, 403, message, some [("entity", .text entity)]⟩

def notFound (message : String) (entity : String) : RequestError :=
  ⟨.notFound, 404, message, some [("entity", .text entity)]⟩

def storage (status : Int) (message : String) (faultCode : Option String) : RequestError :=
  ⟨.storage faultCode, status, message, none⟩

/-- What the caller is sent. -/
def body (e : RequestError) : Object :=
  [("status_code", .int e.status), ("message", .text e.message)] ++
    match e.data with
    | some (d :: ds) => [("data", .object (d :: ds))]
    | _ => []

end RequestError

/-- The classes of errors that a database engine reports. -/
inductive EngineErrorKind where
  | integrity
  | data
  | operational
  | programming
  | timeout
  /-- Another error of the driver. -/
  | driver
  /-- An error found before the driver was asked. -/
  | statement
deriving Repr, DecidableEq, Inhabited

structure EngineError where
  kind : EngineErrorKind
  message : String
  connectionLost : Bool := false
deriving Repr, DecidableEq, Inhabited

structure StorageFault where
  label : FaultLabel
  message : String := ""
  details : Object := []
  /-- The engine error that the fault stands for. -/
  cause : Option EngineError := none
deriving Repr, Inhabited

namespace StorageFault

def ofCode (code : FaultCode) (message : String) (details : Object := []) : StorageFault :=
  ⟨.known code, message, details, none⟩

/-- The message, or the label if there is none. -/
def text (f : StorageFault) : String := if f.message = "" then f.label.shown else f.message

end StorageFault

inductive Failure where
  | request (e : RequestError)
  | fault (f : StorageFault)
  | engine (e : EngineError)
  | schema (message : String)
  | hook (message : String)
  /-- A failure from outside, known by its text. -/
  | foreign (text : String)
  /-- A value of the wrong shape. -/
  | illFormed
deriving Repr, Inhabited

namespace Failure

def validation (message : String) (data : Option Object := none) : Failure :=
  .request (.validation message data)

def access (message : String) (entity : String) : Failure := .request (.access message entity)

def faultOf (code : FaultCode) (message : String) (details : Object := []) : Failure :=
  .fault (.ofCode code message details)

/-- The text of a failure; one of the wrong shape has none of its own. -/
def text : Failure → String
  | .request e => e.message
  | .fault f => f.text
  | .engine e => e.message
  | .schema m => m
  | .hook m => m
  | .foreign m => m
  | .illFormed => "A value has the wrong shape"

end Failure

end RecordGraph
