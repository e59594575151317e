import StreamTypes.Yaml.Cursor
import StreamTypes.Yaml.Moment

/-!
# Written dates and moments

A date has the form of three numbers with dashes between them, and a time of day may follow
it. The numbers need not be in the calendar; what is wrong with them is found afterwards.

## Main definitions

- `MomentForm.ofChars?` — the parts of a written date or moment
- `MomentForm.fault?` — what is wrong with them
-/

namespace StreamTypes.Yaml

/-- The parts of a written date or moment, which need not be in the calendar. -/
structure MomentForm where
  date : Date
  time : Option (Clock × Option Int)

/-- A number of `least` to `most` digits, and the rest. -/
def digitsOf? (least most : Nat) (cs : List Char) : Option (Nat × List Char) :=
  let ds := (cs.take most).takeWhile Char.isDigit
  if ds.length < least then none
  else some (Text.digitsValue ds, cs.drop ds.length)

/-- The rest after a character. -/
def after? (c : Char) : List Char → Option (List Char)
  | d :: cs => if c = d then some cs else none
  | [] => none

/-- Hours and perhaps minutes, up to the end. -/
def hoursAndMinutes? (cs : List Char) : Option Int := do
  let (hours, rest) ← digitsOf? 1 2 cs
  match rest with
  | [] => return 60 * hours
  | ':' :: rest =>
    match ← digitsOf? 2 2 rest with
    | (minutes, []) => return 60 * hours + minutes
    | _ => none
  | _ => none

/-- The offset at the end of a moment, which may be missing. -/
def offset? (cs : List Char) : Option (Option Int) :=
  if cs.isEmpty then some none
  else
    match cs.dropWhile isTabOrSpace with
    | ['Z'] => some (some 0)
    | '+' :: rest => (hoursAndMinutes? rest).map some
    | '-' :: rest => (hoursAndMinutes? rest).map fun n => some (-n)
    | _ => none

/-- The digits after the point of a second as millionths. -/
def microseconds (digits : List Char) : Nat :=
  Text.digitsValue ((digits ++ List.replicate 6 '0').take 6)

/-- The time of day and the offset at the end of a moment. -/
def time? (cs : List Char) : Option (Clock × Option Int) := do
  let rest ← match cs with
    | c :: rest =>
      if c = 'T' || c = 't' then some rest
      else if isTabOrSpace c then some (rest.dropWhile isTabOrSpace)
      else none
    | [] => none
  let (hour, rest) ← digitsOf? 1 2 rest
  let (minute, rest) ← digitsOf? 2 2 (← after? ':' rest)
  let (second, rest) ← digitsOf? 2 2 (← after? ':' rest)
  let (fraction, rest) := match rest with
    | '.' :: more => (more.takeWhile Char.isDigit, more.dropWhile Char.isDigit)
    | more => ([], more)
  return (⟨hour, minute, second, microseconds fraction⟩, ← offset? rest)

/-- The parts of a written date or moment. -/
def MomentForm.ofChars? (cs : List Char) : Option MomentForm := do
  let (year, rest) ← digitsOf? 4 4 cs
  let (month, rest) ← digitsOf? 1 2 (← after? '-' rest)
  let (day, rest) ← digitsOf? 1 2 (← after? '-' rest)
  if rest.isEmpty then return ⟨⟨year, month, day⟩, none⟩
  else return ⟨⟨year, month, day⟩, some (← time? rest)⟩

/-- What is wrong with a date. -/
def Date.fault? (d : Date) : Option ValueFault :=
  if d.year < 1 then some (.year d.year)
  else if d.month < 1 || 12 < d.month then some .month
  else if d.day < 1 || daysIn d.year d.month < d.day then some .day
  else none

/-- What is wrong with a time of day. -/
def Clock.fault? (c : Clock) : Option ValueFault :=
  if 23 < c.hour then some .hour
  else if 59 < c.minute then some .minute
  else if 59 < c.second then some .second
  else none

/-- What is wrong with an offset. -/
def offsetFault? (minutes : Int) : Option ValueFault :=
  if -1440 < minutes && minutes < 1440 then none else some (.offset minutes)

/-- What is wrong with a written moment, where the offset is looked at first. -/
def MomentForm.fault? (m : MomentForm) : Option ValueFault :=
  match m.time with
  | none => m.date.fault?
  | some (clock, offset) =>
    ((offset.bind offsetFault?).orElse fun _ => m.date.fault?).orElse fun _ => clock.fault?

end StreamTypes.Yaml
