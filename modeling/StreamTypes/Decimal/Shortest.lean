import StreamTypes.Decimal.Double

/-!
# Shortest decimals

A binary floating-point number is written with the fewest decimal digits that
read back as the same number; of several such digit strings, the one nearest to
the number is taken, and of two at the same distance the even one. The number and
the interval of reals that round to it are fractions of natural numbers, so the
search is exact.

## Main definitions

- `Interval` — a number and the bounds of what rounds to it
- `shortest` — the digits and the exponent of the shortest decimal
- `Double.text` — the text of a floating-point number
-/

namespace StreamTypes.Decimal

/-- A positive number, and the bounds of the reals that round to it, over a common
denominator. -/
structure Interval where
  value : Nat
  low : Nat
  high : Nat
  den : Nat
  /-- Whether the bounds themselves round to the number. -/
  closed : Bool

/-- The interval of the double `mantissa * 2 ^ exponent`. Below a power of two the
numbers lie twice as close, unless it is the smallest one. -/
def Interval.ofDouble (mantissa : Nat) (exponent : Int) : Interval :=
  let below := if mantissa = Nat.pow 2 52 && exponent != -1074 then 1 else 2
  let scale := Nat.pow 2 (exponent - 2).toNat
  ⟨4 * mantissa * scale, (4 * mantissa - below) * scale, (4 * mantissa + 2) * scale,
    Nat.pow 2 (2 - exponent).toNat, mantissa % 2 = 0⟩

/-- Whether `digits * 10 ^ exponent` lies in the interval. -/
def Interval.contains (i : Interval) (digits : Nat) (exponent : Int) : Bool :=
  let num := digits * Nat.pow 10 exponent.toNat * i.den
  let scale := Nat.pow 10 (-exponent).toNat
  if i.closed then i.low * scale ≤ num && num ≤ i.high * scale
  else i.low * scale < num && num < i.high * scale

/-- The distance between the number and `digits * 10 ^ exponent`, up to a factor
that depends on the exponent only. -/
def Interval.distance (i : Interval) (digits : Nat) (exponent : Int) : Nat :=
  let num := digits * Nat.pow 10 exponent.toNat * i.den
  let value := i.value * Nat.pow 10 (-exponent).toNat
  (num - value) + (value - num)

/-- The exponent of the leading decimal digit of the number. -/
def Interval.leading (i : Interval) : Int :=
  if i.den ≤ i.value then (Nat.toDigits 10 (i.value / i.den)).length - 1
  else
    match (List.range 400).find? fun j => i.den ≤ i.value * Nat.pow 10 j with
    | some j => -j
    | none => 0

/-- The shortest decimal in the interval with at least `count` digits, as a whole
number of digits and an exponent. -/
def shortestFrom (i : Interval) (leading : Int) : Nat → Nat → Nat × Int
  | 0, count =>
    let exponent := leading - count + 1
    (i.value * Nat.pow 10 (-exponent).toNat / (i.den * Nat.pow 10 exponent.toNat), exponent)
  | fuel + 1, count =>
    let exponent := leading - count + 1
    let down := i.value * Nat.pow 10 (-exponent).toNat / (i.den * Nat.pow 10 exponent.toNat)
    let fitsDown := i.contains down exponent
    let fitsUp := i.contains (down + 1) exponent
    -- Of two decimals that read back the nearer one is taken, or the even one.
    if fitsDown && fitsUp then
      let up := i.distance (down + 1) exponent
      if up < i.distance down exponent || (up = i.distance down exponent && down % 2 = 1) then
        (down + 1, exponent)
      else (down, exponent)
    else if fitsDown then (down, exponent)
    else if fitsUp then (down + 1, exponent)
    else shortestFrom i leading fuel (count + 1)

/-- The shortest decimal in an interval, as a whole number of digits and an
exponent. -/
def shortest (i : Interval) : Nat × Int :=
  shortestFrom i i.leading 17 1

/-- The digits without the zeros at the end. -/
def significant (digits : List Char) : List Char :=
  match (digits.reverse.dropWhile (· = '0')).reverse with
  | [] => ['0']
  | ds => ds

/-- The text of the positive number with the given significant digits, where the
decimal point stands `point` places behind the start of the digits. Numbers from
`10 ^ -4` up to `10 ^ 16` are written without an exponent. -/
def positionalText (digits : List Char) (point : Int) : List Char :=
  if -4 < point && point ≤ 16 then
    if point ≤ 0 then '0' :: '.' :: (List.replicate (-point).toNat '0' ++ digits)
    else
      let whole := digits.take point.toNat
      let part := digits.drop point.toNat
      whole ++ List.replicate (point.toNat - whole.length) '0' ++ '.' ::
        (if part.isEmpty then ['0'] else part)
  else
    let exponent := point - 1
    let places := Nat.toDigits 10 exponent.natAbs
    let part := digits.drop 1
    digits.take 1 ++ (if part.isEmpty then [] else '.' :: part) ++
      ['e', if exponent < 0 then '-' else '+'] ++
      (if places.length < 2 then '0' :: places else places)

/-- The text of a floating-point number. -/
def Double.text : Double → String
  | .notANumber => "nan"
  | .infinite negative => if negative then "-inf" else "inf"
  | .finite negative mantissa exponent =>
    let sign := if negative then "-" else ""
    if mantissa = 0 then sign ++ "0.0"
    else
      let (digits, power) := shortest (Interval.ofDouble mantissa exponent)
      let all := Nat.toDigits 10 digits
      sign ++ String.ofList (positionalText (significant all) (all.length + power))

end StreamTypes.Decimal
