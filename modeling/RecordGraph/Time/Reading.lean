import RecordGraph.Time.Calendar

/-!
# Reading days and moments

Days are read in the calendar form (`2024-01-31`, `20240131`) and the week form (`2024-W05-3`,
`2024W053`, the day being Monday if it is missing). A moment is a day, any one character, and a
time of hours, minutes, seconds and a fraction, with or without colons, and an optional offset or
`Z`. Digits are those of ASCII.
-/

namespace RecordGraph

private def asciiDigit? (c : Char) : Option Nat :=
  if 48 ≤ c.toNat ∧ c.toNat ≤ 57 then some (c.toNat - 48) else none

private def takeDigits : Nat → Nat → List Char → Option (Nat × List Char)
  | 0, value, cs => some (value, cs)
  | n + 1, value, c :: cs => do takeDigits n (10 * value + (← asciiDigit? c)) cs
  | _ + 1, _, [] => none

namespace Date

/-- The Monday of the first week, which is the week of the first Thursday. -/
private def firstMonday (year : Nat) : Int :=
  let first : Date := ⟨year, 1, 1⟩
  let monday : Int := (first.ordinal : Int) - first.weekday
  if 3 < first.weekday then monday + 7 else monday

private def hasWeek53 (year : Nat) : Bool :=
  let day := (⟨year, 1, 1⟩ : Date).weekday
  day == 3 || (day == 2 && isLeapYear year)

def ofWeek? (year week day : Nat) : Option Date :=
  if year < 1 ∨ 9999 < year ∨ week < 1 ∨ 53 < week ∨ (week = 53 ∧ !hasWeek53 year) ∨ day < 1 ∨ 7 < day then
    none
  else ofOrdinal? (firstMonday year + ((week - 1) * 7 + (day - 1) : Nat))

/-- A day in the first `length` characters. What follows a calendar form is not looked at, and a
week form has its day if the characters go on. -/
def readFirst? (length : Nat) (cs : List Char) : Option Date := do
  let (year, rest) ← takeDigits 4 0 cs
  let (dashed, rest) := match rest with
    | '-' :: after => (true, after)
    | _ => (false, rest)
  match rest with
  | 'W' :: after =>
    let (week, after) ← takeDigits 2 0 after
    let used := cs.length - after.length
    if used < length then
      let after ← if dashed then
          match after with
          | '-' :: more => some more
          | _ => none
        else some after
      let (day, _) ← takeDigits 1 0 after
      ofWeek? year week day
    else ofWeek? year week 1
  | _ =>
    let (month, after) ← takeDigits 2 0 rest
    let after ← if dashed then
        match after with
        | '-' :: more => some more
        | _ => none
      else some after
    let (day, _) ← takeDigits 2 0 after
    of? year month day

private def byteCount (cs : List Char) : Nat := (cs.map Char.utf8Size).foldl (· + ·) 0

/-- A day on its own: seven, eight or ten bytes long. -/
def read? (cs : List Char) : Option Date :=
  let n := byteCount cs
  if n = 7 ∨ n = 8 ∨ n = 10 then readFirst? n cs else none

end Date

namespace DateTime

/-- Hours, minutes, seconds and microseconds, and whether characters are left over. -/
private structure Clock where
  hour : Nat := 0
  minute : Nat := 0
  second : Nat := 0
  microsecond : Nat := 0
  goesOn : Bool := false

/-- Whether a text goes on; a NUL ends it as well. -/
private def goesOn (cs : List Char) : Bool := cs.head?.any (· != Char.ofNat 0)

private def Clock.setPart (k : Clock) (part value : Nat) : Clock :=
  match part with
  | 0 => { k with hour := value }
  | 1 => { k with minute := value }
  | _ => { k with second := value }

/-- The fraction in the first `room` characters: up to six digits count, further ones are skipped. -/
private def readFraction? (k : Clock) (room : Nat) (cs : List Char) : Option Clock := do
  let width := min room 6
  let (value, rest) ← takeDigits width 0 cs
  let rest := if width < 6 then rest else rest.dropWhile fun c => (asciiDigit? c).isSome
  let rest := rest.dropWhile fun c => (asciiDigit? c).isSome
  some { k with microsecond := value * Nat.pow 10 (6 - width), goesOn := goesOn rest }

/-- The parts of a time from `part` on, in the first `room` characters of `cs`. -/
private def readParts? : Nat → Nat → Bool → Clock → Nat → List Char → Option Clock
  | 0, _, _, k, room, cs => readFraction? k room cs
  | fuel + 1, part, colons, k, room, cs => do
    let (value, rest) ← takeDigits 2 0 cs
    let k := k.setPart part value
    let colons := if part = 0 then rest.head? == some ':' else colons
    if room ≤ 3 then some { k with goesOn := goesOn rest }
    else
      match rest with
      | c :: after =>
        if colons && c == ':' then readParts? fuel (part + 1) colons k (room - 3) after
        else if c == '.' || c == ',' then readFraction? k (room - 3) after
        else if !colons then readParts? fuel (part + 1) colons k (room - 2) rest
        else none
      | [] => none

private def readClock? (room : Nat) (cs : List Char) : Option Clock := readParts? 3 0 true {} room cs

/-- The characters before an offset or `Z`. -/
private def beforeOffset (cs : List Char) : Nat :=
  (cs.takeWhile fun c => c != '+' && c != '-' && c != 'Z').length

/-- A time and its offset in microseconds. -/
private def readTime? (cs : List Char) : Option (Clock × Option Int) := do
  let room := beforeOffset cs
  let k ← readClock? room cs
  match cs.drop room with
  | [] => if k.goesOn then none else some (k, none)
  | 'Z' :: rest => if goesOn rest then none else some (k, some 0)
  | sign :: rest =>
    let o ← readClock? rest.length rest
    if o.goesOn then none
    else
      let seconds := o.hour * 3600 + o.minute * 60 + o.second
      let offset : Int := if seconds = 0 then 0 else (seconds * 1000000 + o.microsecond : Nat)
      if 86400 * 1000000 ≤ offset then none
      else some (k, some (if sign == '-' then -offset else offset))

private def dayLength (cs : List Char) : Nat :=
  let isDigitAt (i : Nat) : Bool := ((cs[i]?).bind asciiDigit?).isSome
  if cs.length = 7 then 7
  else if cs[4]? = some '-' then
    if cs[5]? = some 'W' then
      if 8 < cs.length ∧ cs[8]? = some '-' then
        if 10 < cs.length ∧ isDigitAt 10 then 8 else 10
      else 8
    else 10
  else if cs[4]? = some 'W' then
    let digits := ((cs.drop 7).takeWhile fun c => (asciiDigit? c).isSome).length
    let stop := 7 + digits
    if stop < 9 then stop else if stop % 2 = 0 then 7 else 8
  else 8

/-- Each character as often as it has bytes: places and lengths are counted in bytes. -/
private def byBytes (cs : List Char) : List Char := cs.flatMap fun c => List.replicate c.utf8Size c

/-- A day, or a day and a time. -/
def read? (text : List Char) : Option DateTime := do
  let cs := byBytes text
  if cs.length < 7 then none
  else
    let length := dayLength cs
    let date ← Date.readFirst? length cs
    match cs.drop length with
    | [] => if cs.length < length then none else some (midnight date)
    | separator :: _ =>
      let (k, offset) ← readTime? (cs.drop (length + separator.utf8Size))
      if k.hour < 24 ∧ k.minute < 60 ∧ k.second < 60 then
        some ⟨date, k.hour, k.minute, k.second, k.microsecond, offset⟩
      else none

end DateTime

end RecordGraph
