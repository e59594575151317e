/-!
# Dates and moments

A moment is a date with a time of day, and perhaps an offset from universal time. Two
moments with offsets are the same if they are at the same time.

## Main definitions

- `Date`, `Moment` — the values
- `Date.text`, `Moment.text` — how they are shown
- `Moment.same` — whether two moments are the same
-/

namespace StreamTypes.Yaml

/-- A date. -/
structure Date where
  year : Nat
  month : Nat
  day : Nat
  deriving DecidableEq, Repr

/-- A time of day. -/
structure Clock where
  hour : Nat
  minute : Nat
  second : Nat
  micro : Nat
  deriving DecidableEq, Repr

/-- A date with a time of day. -/
structure Moment where
  date : Date
  clock : Clock
  /-- The offset from universal time in minutes. -/
  offset : Option Int
  deriving DecidableEq, Repr

/-- A number with leading zeros. -/
def padded (width n : Nat) : String :=
  let digits := Nat.toDigits 10 n
  String.ofList (List.replicate (width - digits.length) '0' ++ digits)

/-- How a date is shown. -/
def Date.text (d : Date) : String :=
  padded 4 d.year ++ "-" ++ padded 2 d.month ++ "-" ++ padded 2 d.day

/-- How a time of day is shown. -/
def Clock.text (c : Clock) : String :=
  padded 2 c.hour ++ ":" ++ padded 2 c.minute ++ ":" ++ padded 2 c.second ++
    (if c.micro = 0 then "" else "." ++ padded 6 c.micro)

/-- How an offset is shown. -/
def offsetText (minutes : Int) : String :=
  let n := minutes.natAbs
  (if minutes < 0 then "-" else "+") ++ padded 2 (n / 60) ++ ":" ++ padded 2 (n % 60)

/-- How a moment is shown. -/
def Moment.text (m : Moment) : String :=
  m.date.text ++ " " ++ m.clock.text ++ (m.offset.map offsetText).getD ""

/-- The number of days in a month. -/
def daysIn (year month : Nat) : Nat :=
  if month = 2 then
    if year % 4 = 0 && (year % 100 ≠ 0 || year % 400 = 0) then 29 else 28
  else if month = 4 || month = 6 || month = 9 || month = 11 then 30
  else 31

/-- The number of days from the first day of the calendar to a date. -/
def Date.number (d : Date) : Nat :=
  let years := d.year - 1
  let months := (List.range (d.month - 1)).foldl (fun days k => days + daysIn d.year (k + 1)) 0
  365 * years + years / 4 - years / 100 + years / 400 + months + d.day

/-- The time of a moment in millionths of a second, given its offset. -/
def Moment.instant (m : Moment) (offset : Int) : Int :=
  let minutes : Int := 1440 * m.date.number + 60 * m.clock.hour + m.clock.minute - offset
  1000000 * (60 * minutes + m.clock.second) + m.clock.micro

/-- Whether two moments are the same. -/
def Moment.same (a b : Moment) : Bool :=
  match a.offset, b.offset with
  | some x, some y => a.instant x = b.instant y
  | none, none => a = b
  | _, _ => false

end StreamTypes.Yaml
