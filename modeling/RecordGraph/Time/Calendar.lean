import RecordGraph.Number.Shortest

/-!
# Calendar

Days of the proleptic Gregorian calendar from year 1 to 9999, moments with microseconds and an
optional offset from UTC, their ISO 8601 text and the arithmetic of days.
-/

namespace RecordGraph

def isLeapYear (y : Nat) : Bool := y % 4 == 0 && (y % 100 != 0 || y % 400 == 0)

def daysInMonth (y m : Nat) : Nat :=
  if m = 2 then (if isLeapYear y then 29 else 28)
  else if m = 4 ∨ m = 6 ∨ m = 9 ∨ m = 11 then 30 else 31

structure Date where
  year : Nat
  month : Nat
  day : Nat
deriving Repr, DecidableEq, Inhabited

namespace Date

def IsValid (d : Date) : Prop :=
  1 ≤ d.year ∧ d.year ≤ 9999 ∧ 1 ≤ d.month ∧ d.month ≤ 12 ∧ 1 ≤ d.day ∧ d.day ≤ daysInMonth d.year d.month

instance (d : Date) : Decidable d.IsValid := by unfold IsValid; infer_instance

/-- The date, if it is one. -/
def of? (year month day : Nat) : Option Date :=
  if Date.IsValid ⟨year, month, day⟩ then some ⟨year, month, day⟩ else none

/-- The days before the first of January of a year, counted from year 1. -/
def daysBeforeYear (y : Nat) : Nat :=
  let p := y - 1
  p * 365 + p / 4 - p / 100 + p / 400

def daysBeforeMonth (y m : Nat) : Nat :=
  ((List.range (m - 1)).map fun i => daysInMonth y (i + 1)).foldl (· + ·) 0

/-- The number of the day, the first of January of year 1 being day 1. -/
def ordinal (d : Date) : Nat := daysBeforeYear d.year + daysBeforeMonth d.year d.month + d.day

def monthFrom (y : Nat) : Nat → Nat → Nat → Nat × Nat
  | 0, m, n => (m, n)
  | fuel + 1, m, n =>
    if n ≤ daysInMonth y m then (m, n) else monthFrom y fuel (m + 1) (n - daysInMonth y m)

/-- The day with a number, if it is in the calendar. -/
def ofOrdinal? (n : Int) : Option Date :=
  if n < 1 ∨ 3652059 < n then none
  else
    let k := n.toNat
    let guess := (k - 1) / 366 + 1
    let year := (List.range 30).foldl
      (fun y _ => if daysBeforeYear (y + 1) < k then y + 1 else y) guess
    let md := monthFrom year 11 1 (k - daysBeforeYear year)
    some ⟨year, md.1, md.2⟩

def addDays? (d : Date) (n : Int) : Option Date := ofOrdinal? ((d.ordinal : Int) + n)

/-- The day of the week, Monday being 0. -/
def weekday (d : Date) : Nat := (d.ordinal + 6) % 7

end Date

/-- `n` with at least `width` digits. -/
def padded (width n : Nat) : List Char :=
  let ds := Significand.digitsOf n
  List.replicate (width - ds.length) '0' ++ ds

/-- A moment on the clock of some place. The offset from UTC is in microseconds; without one the
place is unknown. -/
structure DateTime where
  date : Date
  hour : Nat
  minute : Nat
  second : Nat
  microsecond : Nat
  offset : Option Int
deriving Repr, DecidableEq, Inhabited

namespace DateTime

/-- Midnight of a day, on an unknown clock. -/
def midnight (d : Date) : DateTime := ⟨d, 0, 0, 0, 0, none⟩

/-- The same day at midnight, on the same clock. -/
def startOfDay (t : DateTime) : DateTime := { t with hour := 0, minute := 0, second := 0, microsecond := 0 }

def addDays? (t : DateTime) (n : Int) : Option DateTime :=
  (t.date.addDays? n).map fun d => { t with date := d }

/-- Microseconds since the start of the calendar, on the moment's own clock. -/
def clockMicroseconds (t : DateTime) : Int :=
  ((((t.date.ordinal * 24 + t.hour) * 60 + t.minute) * 60 + t.second) * 1000000 + t.microsecond : Nat)

/-- Two moments are the same if both have an offset and agree in UTC, or neither has one and their
clocks agree. -/
def same (a b : DateTime) : Bool :=
  match a.offset, b.offset with
  | none, none => a.clockMicroseconds == b.clockMicroseconds
  | some x, some y => a.clockMicroseconds - x == b.clockMicroseconds - y
  | _, _ => false

end DateTime

namespace Date

def chars (d : Date) : List Char := padded 4 d.year ++ '-' :: padded 2 d.month ++ '-' :: padded 2 d.day

/-- The ISO 8601 text of a day. -/
def text (d : Date) : String := .ofList d.chars

end Date

namespace DateTime

/-- The text of an offset: hours and minutes, then seconds and microseconds if there are any. -/
def offsetChars (offset : Int) : List Char :=
  let n := offset.natAbs
  let seconds := n / 1000000
  let micro := n % 1000000
  (if offset < 0 then '-' else '+') :: padded 2 (seconds / 3600) ++ ':' :: padded 2 (seconds / 60 % 60)
    ++ (if seconds % 60 = 0 ∧ micro = 0 then [] else ':' :: padded 2 (seconds % 60))
    ++ (if micro = 0 then [] else '.' :: padded 6 micro)

/-- The ISO 8601 text with a chosen mark between day and time. -/
def charsWith (mark : Char) (t : DateTime) : List Char :=
  t.date.chars ++ mark :: padded 2 t.hour ++ ':' :: padded 2 t.minute ++ ':' :: padded 2 t.second
    ++ (if t.microsecond = 0 then [] else '.' :: padded 6 t.microsecond)
    ++ (match t.offset with | some o => offsetChars o | none => [])

/-- The ISO 8601 text of a moment. -/
def text (t : DateTime) : String := .ofList (t.charsWith 'T')

end DateTime

end RecordGraph
