import RecordGraph.Relational.Session.Flush

/-!
# Finding and linking objects

Objects are looked up by a condition or along a link, put at the other end of a link, and marked for
removal. Whatever is linked to an object of the session is written with it.
-/

namespace RecordGraph

namespace Work

variable (c : Catalog)

/-! ## Looking up -/

/-- The first row of which a condition holds. -/
def findOne (m : Model) (filter : Value) : Work (Option Ref) := do
  let condition ← c.condition m filter
  flush c
  condition.bind
  match (← get).db.select m condition with
  | [] => return none
  | row :: _ => some <$> ofRow m row

/-- The objects at the other end of a link, read from the database if they are not known. -/
def endsOf (ref : Ref) (l : Link) : Work (List Ref) := do
  let t ← object ref
  match t.ends.lookup l.name with
  | some e => return e.now
  | none =>
    if t.stage == .stored then
      flush c
      let found ← storedEnds c ref l
      let found := if l.isList then found else found.take 1
      modifyObject ref fun t => t.setEnds l ⟨some found, found⟩
      return found
    else return []

/-! ## Linking -/

/-- Makes new objects pending, with the new objects that they are linked to. -/
def attachAll : Nat → List Ref → Work Unit
  | 0, _ => pure ()
  | levels + 1, refs => do
    for ref in refs do
      let t ← object ref
      if t.stage == .fresh then
        modifyObject ref fun t => { t with stage := .pending }
        modify fun s => { s with queue := s.queue ++ [ref] }
        for l in t.model.links do
          attachAll levels (((t.ends.lookup l.name).map (·.now)).getD [])

def attach (ref : Ref) : Work Unit := do
  attachAll ((← get).objects.length + 1) [ref]

/-- Puts objects at the other end of a link. What is linked to an object of the session belongs to
the session. -/
def setEnds (ref : Ref) (l : Link) (now : List Ref) : Work Unit := do
  let t ← object ref
  let before : Option (List Ref) :=
    match t.ends.lookup l.name, l.kind with
    | some e, _ => e.before
    | none, .holds _ => none
    | none, _ => some []
  modifyObject ref fun t => t.setEnds l ⟨before, now⟩
  if t.isAttached then for r in now do attach r

/-- Links an object to one other, or to none. On the side that does not hold the key, the row that
was linked before has to be known. -/
def linkOne (ref : Ref) (l : Link) (other : Option Ref) : Work Unit := do
  let t ← object ref
  match l.kind with
  | .heldBy .. =>
    if t.stage == .stored && (t.ends.lookup l.name).isNone then
      throw (refused ("Relation '" ++ l.name ++ "' was not loaded"))
  | _ => pure ()
  setEnds ref l other.toList

/-- Marks the row of an object for removal. -/
def doom (ref : Ref) : Work Unit := do
  let t ← object ref
  if t.stage == .fresh || t.stage == .pending then throw (refused "The row is not in the database")
  modifyObject ref fun t => { t with stage := if t.stage == .stored then .doomed else t.stage }

end Work

end RecordGraph
