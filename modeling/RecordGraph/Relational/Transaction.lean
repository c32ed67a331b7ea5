import RecordGraph.Relational.Fault
import RecordGraph.Relational.Session

/-!
# Transactions

Work on a database that is undone as a whole if it fails. Errors of the engine are told as faults. Work
may be given a limit of time, at which it is cut.
-/

namespace RecordGraph

abbrev Query := Act Database

/-- How long works take. Given the seconds that a work has and the database that it found, a clock tells
how the database stands when the time is up, or nothing if the work is done by then. -/
structure Clock where
  standing : Binary64 → Database → Option Database

namespace Clock

/-- Every work is done in time. -/
def patient : Clock := ⟨fun _ _ => none⟩

/-- How the database stands when a work is cut; where no time is given at all, as it was found. -/
def cut? (clock : Clock) (seconds : Binary64) (db : Database) : Option Database :=
  if seconds.isNegative || seconds.isZero then some db else clock.standing seconds db

end Clock

namespace Query

def faulting {α : Type} (entity : Option String) (act : Query α) : Query α :=
  tryCatch act fun
    | .engine e => throw (.fault (.ofEngine entity e))
    | failure => throw failure

/-- Undoes what was done if it ends with a failure. -/
def undoing {α : Type} (act : Query α) : Query α := do
  let before ← get
  tryCatch act fun failure => do
    set before
    throw failure

def transaction {α : Type} (entity : Option String) (act : Query α) : Query α :=
  faulting entity (undoing act)

/-! ## Limits of time -/

/-- The seconds that a limit gives; an integer beyond the doubles gives none. -/
def secondsOf (limit : Value) : Except Failure Binary64 :=
  match limit with
  | .bool b => pure (.ofInt (if b then 1 else 0))
  | .int n =>
    match Binary64.ofInt n with
    | .infinite false => throw .illFormed
    | seconds => pure seconds
  | .float seconds => pure seconds
  | _ => throw .illFormed

/-- How a work ends whose time is up. -/
def overdue (limit : Value) : Failure :=
  .faultOf .transactionTimeout ("Transaction exceeded " ++ limit.shown ++ "s")

/-- A work that is cut at a limit of time; with no limit it takes as long as it takes. A cut work is left
where it stands, and what it has done until then is for its transaction to undo. -/
def within {α : Type} (clock : Clock) (limit : Value) (work : Query α) : Query α :=
  if limit.isNull then work
  else do
    let seconds ← secondsOf limit
    match clock.cut? seconds (← get) with
    | none => work
    | some standing => do
      set standing
      throw (overdue limit)

@[simp] theorem within_null {α : Type} (clock : Clock) (work : Query α) : within clock .null work = work := rfl

/-! ## Writes -/

/-- A write, worked out in a session of its own. -/
def write {α : Type} (entity : String) (work : Work α) : Query α := do
  transaction (some entity) do
    let (outcome, session) := work.runOn { db := ← get }
    set session.db
    Act.ofExcept outcome

end Query

end RecordGraph
