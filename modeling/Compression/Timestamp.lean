import Compression.Numerals

namespace Compression

/-- A time of day in millionths of a second, and how many seconds it is ahead of universal time,
if that is known. -/
structure ClockTime where
  hour : Nat
  minute : Nat
  second : Nat
  micros : Nat
  ahead : Option Int
deriving DecidableEq, Hashable

/-- A day, or a moment of it. -/
structure Timestamp where
  year : Nat
  month : Nat
  day : Nat
  clock : Option ClockTime
deriving DecidableEq, Hashable

/-- Takes from `least` to `most` decimal digits, as many as there are. -/
def takeNumber (least most : Nat) (cs : List Char) : Option (Nat × List Char) :=
  let digits := (cs.take most).takeWhile Char.isDigit
  if digits.length < least then none
  else (numeral? digits).map fun n => (n, cs.drop digits.length)

def takeChar (c : Char) : List Char → Option (List Char)
  | d :: rest => if c = d then some rest else none
  | [] => none

/-- Millionths from the digits of a fraction; further digits do not count. -/
def takeMicros : List Char → Nat × List Char
  | '.' :: rest =>
    let digits := rest.takeWhile Char.isDigit
    ((numeral? ((digits ++ List.replicate 6 '0').take 6)).getD 0, rest.drop digits.length)
  | cs => (0, cs)

def isSpaceOrTab (c : Char) : Bool :=
  c = ' ' || c = '\t'

/-- Nothing, or the letter Z, or a difference from universal time in hours and minutes. -/
def zoneOf (cs : List Char) : Option (Option Int) :=
  match cs.dropWhile isSpaceOrTab with
  | [] => if cs.isEmpty then some none else none
  | ['Z'] => some (some 0)
  | sign :: rest =>
    if sign ≠ '+' ∧ sign ≠ '-' then none
    else do
      let (hours, rest) ← takeNumber 1 2 rest
      let minutes ←
        match rest with
        | [] => some 0
        | ':' :: rest => (takeNumber 2 2 rest).bind fun m => if m.2.isEmpty then some m.1 else none
        | _ => none
      let seconds : Int := 60 * (60 * hours + minutes)
      return some (if sign = '-' then -seconds else seconds)

def clockOf (cs : List Char) : Option ClockTime := do
  let (hour, rest) ← takeNumber 1 2 cs
  let (minute, rest) ← takeNumber 2 2 (← takeChar ':' rest)
  let (second, rest) ← takeNumber 2 2 (← takeChar ':' rest)
  let (micros, rest) := takeMicros rest
  return ⟨hour, minute, second, micros, ← zoneOf rest⟩

/-- Text in the form of a day, or of a day and a time. -/
def timestamp? (cs : List Char) : Option Timestamp := do
  let (year, rest) ← takeNumber 4 4 cs
  let (month, rest) ← takeNumber 1 2 (← takeChar '-' rest)
  let (day, rest) ← takeNumber 1 2 (← takeChar '-' rest)
  match rest with
  | [] => some ⟨year, month, day, none⟩
  | c :: rest =>
    if c = 'T' ∨ c = 't' then return ⟨year, month, day, some (← clockOf rest)⟩
    else if isSpaceOrTab c then
      return ⟨year, month, day, some (← clockOf (rest.dropWhile isSpaceOrTab))⟩
    else none

/-- Whether text is a timestamp if nothing else says so. A day alone then has two digits for the
month and two for itself; with a time, one is enough. -/
def isTimestampText (cs : List Char) : Bool :=
  (timestamp? cs).any fun t => t.clock.isSome || cs.length = 10

/-- What is wrong with a timestamp of the right form. -/
inductive TimestampError where
  | year (found : Nat)
  | month
  | day
  | hour
  | minute
  | second
  | zone (seconds : Int)

def isLeapYear (year : Nat) : Bool :=
  year % 4 = 0 && (year % 100 ≠ 0 || year % 400 = 0)

def daysOfMonth (year month : Nat) : Nat :=
  if month = 2 then if isLeapYear year then 29 else 28
  else if [4, 6, 9, 11].contains month then 30
  else 31

def daySeconds : Nat := 86400

/-- Refuses a timestamp that is not in the calendar. The zone is looked at first. -/
def Timestamp.check (t : Timestamp) : Except TimestampError Timestamp := do
  let clock := t.clock.getD ⟨0, 0, 0, 0, none⟩
  if daySeconds ≤ (clock.ahead.getD 0).natAbs then throw (.zone (clock.ahead.getD 0))
  if t.year = 0 then throw (.year t.year)
  if t.month = 0 ∨ 12 < t.month then throw .month
  if t.day = 0 ∨ daysOfMonth t.year t.month < t.day then throw .day
  if 23 < clock.hour then throw .hour
  if 59 < clock.minute then throw .minute
  if 59 < clock.second then throw .second
  return t

/-- The number of a day, counted from the first one of the calendar. -/
def Timestamp.dayNumber (t : Timestamp) : Nat :=
  let past := t.year - 1
  365 * past + past / 4 - past / 100 + past / 400 +
    (List.range (t.month - 1)).foldl (fun days m => days + daysOfMonth t.year (m + 1)) 0 + t.day

/-- Seconds in universal time since the first day of the calendar, if the zone is known. -/
def Timestamp.universalSecond? (t : Timestamp) : Option Int := do
  let clock ← t.clock
  let ahead ← clock.ahead
  return 60 * (60 * (24 * t.dayNumber + clock.hour) + clock.minute) + clock.second - ahead

/-- A span of time in days, and in the seconds that are left over. -/
def spanText (seconds : Int) : String :=
  let days := Int.fdiv seconds daySeconds
  let left := Int.fmod seconds daySeconds
  let parts := (if days = 0 then [] else [s!"days={days}"]) ++
    (if left = 0 then [] else [s!"seconds={left}"])
  "datetime.timedelta(" ++ (if parts.isEmpty then "0" else ", ".intercalate parts) ++ ")"

def zoneText (seconds : Int) : String :=
  if seconds = 0 then "datetime.timezone.utc" else s!"datetime.timezone({spanText seconds})"

def TimestampError.message : TimestampError → String
  | .year found => s!"year {found} is out of range"
  | .month => "month must be in 1..12"
  | .day => "day is out of range for month"
  | .hour => "hour must be in 0..23"
  | .minute => "minute must be in 0..59"
  | .second => "second must be in 0..59"
  | .zone seconds =>
    "offset must be a timedelta strictly between -timedelta(hours=24) and timedelta(hours=24), " ++
      s!"not {spanText seconds}."

/-- The parts of a time, without seconds or millionths at its end that are zero. -/
def ClockTime.parts (c : ClockTime) : List Nat :=
  [c.hour, c.minute] ++
    if c.micros ≠ 0 then [c.second, c.micros] else if c.second ≠ 0 then [c.second] else []

def Timestamp.kind (t : Timestamp) : String :=
  if t.clock.isSome then "datetime" else "date"

def Timestamp.render (t : Timestamp) : String :=
  let numbers := [t.year, t.month, t.day] ++ (t.clock.map ClockTime.parts).getD []
  let zone := (t.clock.bind ClockTime.ahead).map fun seconds => s!"tzinfo={zoneText seconds}"
  s!"datetime.{t.kind}(" ++ ", ".intercalate (numbers.map toString ++ zone.toList) ++ ")"

end Compression
