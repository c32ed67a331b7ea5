import RecordGraph.Number.Decimal
import RecordGraph.Number.Layout
import RecordGraph.Time.Calendar
import RecordGraph.Text.Quoted

/-!
# Values

Payloads, filters, plans and records are trees of values. An object keeps its members in order; a
member that is set again keeps its place. Values are compared by what they are worth: `true`, `1`
and `1.0` are equal, and so are objects with equal members in any order.
-/

namespace RecordGraph

inductive Value where
  | null
  | bool (b : Bool)
  | int (n : Int)
  | float (x : Binary64)
  | decimal (d : Decimal)
  | date (d : Date)
  | datetime (t : DateTime)
  | text (s : String)
  | list (items : List Value)
  | object (members : List (String × Value))
deriving Repr, Inhabited

abbrev Object := List (String × Value)

namespace Object

def get? (key : String) : Object → Option Value
  | [] => none
  | (k, v) :: rest => if k = key then some v else get? key rest

/-- The member, or null if there is none. -/
def get (o : Object) (key : String) : Value := (get? key o).getD .null

def contains (o : Object) (key : String) : Bool := (get? key o).isSome

/-- Sets a member: in its place if it is there, at the end otherwise. -/
def set (key : String) (value : Value) : Object → Object
  | [] => [(key, value)]
  | (k, v) :: rest => if k = key then (k, value) :: rest else (k, v) :: set key value rest

def erase (key : String) : Object → Object
  | [] => []
  | (k, v) :: rest => if k = key then rest else (k, v) :: erase key rest

def keys (o : Object) : List String := o.map Prod.fst

/-- Sets the members of `more`, one after the other. -/
def update (o more : Object) : Object := more.foldl (fun o kv => set kv.1 kv.2 o) o

def without (o : Object) (dropped : List String) : Object := o.filter fun kv => !dropped.contains kv.1

/-- An object from members that may repeat. -/
def ofMembers (members : List (String × Value)) : Object := update [] members

theorem get?_set_self (key : String) (v : Value) (o : Object) : get? key (set key v o) = some v := by
  induction o with
  | nil => simp [set, get?]
  | cons kv rest ih =>
    obtain ⟨k, w⟩ := kv
    by_cases h : k = key <;> simp [set, get?, h, ih]

theorem get?_set_of_ne {key other : String} (h : key ≠ other) (v : Value) (o : Object) :
    get? other (set key v o) = get? other o := by
  induction o with
  | nil => simp [set, get?, h]
  | cons kv rest ih =>
    obtain ⟨k, w⟩ := kv
    by_cases hk : k = key
    · subst hk; simp [set, get?, h]
    · simp [set, get?, hk, ih]

end Object

namespace Value

def isNull : Value → Bool
  | .null => true
  | _ => false

def isText : Value → Bool
  | .text _ => true
  | _ => false

def isList : Value → Bool
  | .list _ => true
  | _ => false

def isObject : Value → Bool
  | .object _ => true
  | _ => false

/-- The items of a list; a value on its own is one item, and null is none. -/
def asItems : Value → List Value
  | .null => []
  | .list items => items
  | v => [v]

/-- Whether a value counts as present: null, false, zero and everything empty do not. -/
def isPresent : Value → Bool
  | .null => false
  | .bool b => b
  | .int n => n != 0
  | .float x => !x.isZero
  | .decimal d => !d.isZero
  | .date _ | .datetime _ => true
  | .text s => s != ""
  | .list items => !items.isEmpty
  | .object members => !members.isEmpty

def texts (ss : List String) : Value := .list (ss.map .text)

end Value

end RecordGraph
