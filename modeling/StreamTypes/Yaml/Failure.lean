import StreamTypes.Text.Digits
import StreamTypes.Text.Quoted

/-!
# Why a text has no value

Most texts without a value are not YAML at all. Some are, but hold a number, a date or an
escape code that there is not; that is found out late, and it is told apart.

## Main definitions

- `ValueFault` — something that has the form of a value but is none
- `ValueFault.message` — the same in words
- `Failure` — why a text has no value
-/

namespace StreamTypes.Yaml

/-- Something that has the form of a value but is none. -/
inductive ValueFault where
  /-- No code point has the code of an escape. -/
  | codeRange
  /-- The code of an escape is too large to be looked at. -/
  | codeSize
  | tooManyDigits (count : Nat)
  /-- A text is no whole number in a base. -/
  | notInteger (base : Nat) (given : WideText)
  /-- A text is no number with a point. -/
  | notDecimal (given : WideText)
  /-- A number has so many groups below sixty that the unit of the first one is too
  large. -/
  | unitSize
  | notTruth (given : WideText)
  | empty
  | notMoment
  /-- A collection is no date. -/
  | momentOfCollection
  /-- A value is its own default. -/
  | endless
  | year (given : Nat)
  | month
  | day
  | hour
  | minute
  | second
  /-- An offset from universal time, in minutes, is a day or more. -/
  | offset (minutes : Int)
  /-- A value is refused where it is used. -/
  | refused (complaint : String)
  deriving DecidableEq, Repr

/-- The length of a time in minutes, as days and seconds. -/
def shownDuration (minutes : Int) : String :=
  let days := minutes.fdiv 1440
  let seconds := 60 * minutes.fmod 1440
  let parts := (if days = 0 then [] else ["days=" ++ toString days]) ++
    (if seconds = 0 then [] else ["seconds=" ++ toString seconds])
  "datetime.timedelta(" ++ String.intercalate ", " parts ++ ")"

/-- What is wrong with a value, in words. -/
def ValueFault.message : ValueFault → String
  | .codeRange => "chr() arg not in range(0x110000)"
  | .codeSize => "Python int too large to convert to C int"
  | .tooManyDigits count =>
    "Exceeds the limit (" ++ Nat.repr Text.numeralLimit ++
      " digits) for integer string conversion: value has " ++ Nat.repr count ++
      " digits; use sys.set_int_max_str_digits() to increase the limit"
  | .notInteger base given =>
    "invalid literal for int() with base " ++ Nat.repr base ++ ": " ++
      String.ofList ((Text.quotedChars given).take 200)
  | .notDecimal given => "could not convert string to float: " ++ Text.quotedWide given
  | .unitSize => "int too large to convert to float"
  | .notTruth given => Text.quotedWide given
  | .empty => "string index out of range"
  | .notMoment => "'NoneType' object has no attribute 'groupdict'"
  | .momentOfCollection => "expected string or bytes-like object, got 'list'"
  | .endless => "maximum recursion depth exceeded"
  | .year given => "year " ++ Nat.repr given ++ " is out of range"
  | .month => "month must be in 1..12"
  | .day => "day is out of range for month"
  | .hour => "hour must be in 0..23"
  | .minute => "minute must be in 0..59"
  | .second => "second must be in 0..59"
  | .offset minutes =>
    "offset must be a timedelta strictly between -timedelta(hours=24) and " ++
      "timedelta(hours=24), not " ++ shownDuration minutes ++ "."
  | .refused complaint => complaint

/-- Why a text has no value. -/
inductive Failure where
  /-- The text is not a YAML document of known types. -/
  | malformed
  /-- Something in it has the form of a value but is none. -/
  | value (fault : ValueFault)
  deriving DecidableEq, Repr

end StreamTypes.Yaml
