import RecordGraph.Value.Equality

/-!
# Guards

A guard is a filter that the caller can neither override nor get around. Guards are cleaned of what
says nothing, freed of the conditions on the parent that a relation is followed from, and joined to
the caller's filter.
-/

namespace RecordGraph

namespace Guard

/-- The keys whose lists of conditions are combined by logic. -/
def isLogical (key : String) : Bool := key == "AND" || key == "OR"

/-- A tree of one logical key over one condition is that condition. -/
def unwrap (tree : Object) : Value :=
  match tree with
  | [(key, .list [condition])] => if isLogical key then condition else .object tree
  | _ => .object tree

mutual

/-- A filter without the parts that say nothing: nulls in lists, empty lists and empty objects, at
any depth. Explicit comparisons with null stay. Nothing is left of a filter that was empty all
through. -/
def clean : Value → Option Value
  | .null => none
  | .list items =>
    match cleanItems items with
    | [] => none
    | cleaned => some (.list cleaned)
  | .object members =>
    match cleanMembers members with
    | [] => none
    | cleaned => match unwrap cleaned with
      | .null => none
      | v => some v
  | v => some v

def cleanItems : List Value → List Value
  | [] => []
  | v :: vs =>
    match clean v with
    | some w => w :: cleanItems vs
    | none => cleanItems vs

def cleanMembers : List (String × Value) → List (String × Value)
  | [] => []
  | (k, .null) :: rest => (k, .null) :: cleanMembers rest
  | (k, v) :: rest =>
    match clean v with
    | some w => (k, w) :: cleanMembers rest
    | none => cleanMembers rest

end

mutual

/-- A filter of a relation's target without the conditions on the parent entity: following the
relation from a parent satisfies them already. -/
def withoutParent (parent : String) : Value → Option Value
  | .null => none
  | .list items =>
    match withoutParentItems parent items with
    | [] => none
    | kept => some (.list kept)
  | .object members =>
    match unwrap (withoutParentMembers parent members) with
    | .null => none
    | v => some v
  | v => some v

def withoutParentItems (parent : String) : List Value → List Value
  | [] => []
  | v :: vs =>
    match withoutParent parent v with
    | some w => w :: withoutParentItems parent vs
    | none => withoutParentItems parent vs

def withoutParentMembers (parent : String) : List (String × Value) → List (String × Value)
  | [] => []
  | (k, v) :: rest =>
    if k = parent then withoutParentMembers parent rest
    else if isLogical k then
      match withoutParent parent v with
      | some (.list kept) => (k, .list kept) :: withoutParentMembers parent rest
      | _ => withoutParentMembers parent rest
    else (k, v) :: withoutParentMembers parent rest

end

/-- Whether the filter constrains a key of the guard with another value. -/
def clashes (filter : Object) (condition : String × Value) : Bool :=
  match Object.get? condition.1 filter with
  | some v => !v.same condition.2
  | none => false

/-- The filter and the guard in one: keys are merged, and a condition of the guard on a key that the
filter constrains otherwise is added under `AND`. -/
def merge (filter guard : Object) : Object :=
  let clashing := guard.filter (clashes filter)
  let merged := Object.update filter (guard.filter fun kv => !clashes filter kv)
  if clashing.isEmpty then merged
  else
    let items := (Object.get merged "AND").asItems ++ clashing.map fun kv => .object [kv]
    Object.set "AND" (.list items) merged

end Guard

end RecordGraph
