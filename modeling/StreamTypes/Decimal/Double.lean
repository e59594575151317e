import StreamTypes.Text.Digits

/-!
# Numbers in double precision

Binary floating-point numbers with 53 significant bits. A finite number is a natural
number times a power of two, so sums and products are exact before they are rounded:
to the nearest number, and from halfway to the one with an even mantissa.

## Main definitions

- `Double` — the numbers
- `Double.nearest` — the number nearest to a fraction
- `Double.add`, `Double.mul`, `Double.sameValue` — arithmetic and comparison
- `Double.ofChars?` — the number that a text is
-/

namespace StreamTypes.Decimal

/-- A number in double precision. -/
inductive Double where
  | notANumber
  | infinite (negative : Bool)
  /-- The number `mantissa * 2 ^ exponent`. -/
  | finite (negative : Bool) (mantissa : Nat) (exponent : Int)
  deriving DecidableEq, Repr

namespace Double

/-- The exponent of the smallest numbers. -/
def leastExponent : Int := -1074

/-- The exponent of the largest numbers. -/
def greatestExponent : Int := 971

/-- Zero. -/
def zero (negative : Bool) : Double :=
  .finite negative 0 leastExponent

/-- The natural number nearest to a fraction, and the even one from halfway. -/
def roundedQuotient (num den : Nat) : Nat :=
  let quotient := num / den
  let rest := num % den
  if den < 2 * rest || (den = 2 * rest && quotient % 2 = 1) then quotient + 1 else quotient

/-- The number of a mantissa of up to 53 bits or just above, if the exponent is not too
large. -/
def ofMantissa (negative : Bool) (mantissa : Nat) (exponent : Int) : Double :=
  let (mantissa, exponent) : Nat × Int :=
    if mantissa = Nat.pow 2 53 then (Nat.pow 2 52, exponent + 1) else (mantissa, exponent)
  if greatestExponent < exponent then .infinite negative else .finite negative mantissa exponent

/-- The fraction `num / den` divided by a power of two. -/
def scaledDown (num den : Nat) (exponent : Int) : Nat × Nat :=
  (num * Nat.pow 2 (-exponent).toNat, den * Nat.pow 2 exponent.toNat)

/-- The number nearest to the fraction `num / den`. -/
def nearest (negative : Bool) (num den : Nat) : Double :=
  if num = 0 then zero negative
  else
    -- The fraction lies between the powers of two next to `size`.
    let size : Int := (Nat.log2 num : Int) - Nat.log2 den
    let low := max (size - 53) leastExponent
    let (lowNum, lowDen) := scaledDown num den low
    let exponent := if lowNum / lowDen < Nat.pow 2 53 then low else low + 1
    let (num, den) := scaledDown num den exponent
    ofMantissa negative (roundedQuotient num den) exponent

/-- The number nearest to `mantissa * 2 ^ exponent`. -/
def nearestScaled (negative : Bool) (mantissa : Nat) (exponent : Int) : Double :=
  let (num, den) := scaledDown mantissa 1 (-exponent)
  nearest negative num den

/-- The number nearest to a natural number, unless that is too large. -/
def ofNat? (n : Nat) : Option Double :=
  match nearest false n 1 with
  | .finite negative mantissa exponent => some (.finite negative mantissa exponent)
  | _ => none

/-- The number with the other sign. -/
def neg : Double → Double
  | .notANumber => .notANumber
  | .infinite negative => .infinite !negative
  | .finite negative mantissa exponent => .finite (!negative) mantissa exponent

/-- A mantissa with its sign. -/
def signed (negative : Bool) (mantissa : Nat) : Int :=
  if negative then -(mantissa : Int) else mantissa

/-- The finite sum of two numbers; it is positive if it is zero, unless both are
negative. -/
def addFinite (s : Bool) (m : Nat) (e : Int) (s' : Bool) (m' : Nat) (e' : Int) : Double :=
  let least := min e e'
  let total := signed s (m * Nat.pow 2 (e - least).toNat) +
    signed s' (m' * Nat.pow 2 (e' - least).toNat)
  if total = 0 then zero (s && s') else nearestScaled (total < 0) total.natAbs least

/-- The sum of two numbers. -/
def add : Double → Double → Double
  | .notANumber, _ | _, .notANumber => .notANumber
  | .infinite s, .infinite s' => if s = s' then .infinite s else .notANumber
  | .infinite s, .finite .. | .finite .., .infinite s => .infinite s
  | .finite s m e, .finite s' m' e' => addFinite s m e s' m' e'

/-- The product of two numbers. -/
def mul : Double → Double → Double
  | .notANumber, _ | _, .notANumber => .notANumber
  | .infinite s, .infinite s' => .infinite (s != s')
  | .infinite s, .finite s' m _ | .finite s' m _, .infinite s =>
    if m = 0 then .notANumber else .infinite (s != s')
  | .finite s m e, .finite s' m' e' => nearestScaled (s != s') (m * m') (e + e')

/-- Whether `m * 2 ^ e` and `m' * 2 ^ e'` are equal. -/
def sameScaled (m : Int) (e : Int) (m' : Int) (e' : Int) : Bool :=
  let least := min e e'
  m * Nat.pow 2 (e - least).toNat = m' * Nat.pow 2 (e' - least).toNat

/-- Whether two numbers are equal; the zeros are, and what is not a number is equal to
nothing. -/
def sameValue : Double → Double → Bool
  | .infinite s, .infinite s' => s = s'
  | .finite s m e, .finite s' m' e' => sameScaled (signed s m) e (signed s' m') e'
  | _, _ => false

/-- Whether a number is equal to a whole number. -/
def isInt (n : Int) : Double → Bool
  | .finite s m e => sameScaled (signed s m) e n 0
  | _ => false

/-- The number nearest to `digits * 10 ^ exponent`. Numbers far beyond the range are not
computed. -/
def ofDecimal (negative : Bool) (digits : List Char) (exponent : Int) : Double :=
  let significant := digits.dropWhile (· = '0')
  let point := significant.length + exponent
  if significant.isEmpty || point < -400 then zero negative
  else if 400 < point then .infinite negative
  else
    nearest negative (Text.digitsValue significant * Nat.pow 10 exponent.toNat)
      (Nat.pow 10 (-exponent).toNat)

/-- The exponent at the end of a decimal, or zero if there is none. -/
def exponent? : List Char → Option Int
  | [] => some 0
  | e :: cs =>
    let (negative, digits) : Bool × List Char :=
      match cs with
      | '-' :: rest => (true, rest)
      | '+' :: rest => (false, rest)
      | rest => (false, rest)
    if (e = 'e' || e = 'E') && !digits.isEmpty && digits.all Char.isDigit then
      some (signed negative (Text.digitsValue digits))
    else none

/-- The number that an unsigned decimal is. -/
def ofUnsigned? (negative : Bool) (cs : List Char) : Option Double :=
  let whole := cs.takeWhile Char.isDigit
  let (part, rest) : List Char × List Char :=
    match cs.dropWhile Char.isDigit with
    | '.' :: rest => (rest.takeWhile Char.isDigit, rest.dropWhile Char.isDigit)
    | rest => ([], rest)
  if whole.isEmpty && part.isEmpty then none
  else (exponent? rest).map fun e => ofDecimal negative (whole ++ part) (e - part.length)

/-- The number that a word is, apart from its sign. -/
def ofWord? (negative : Bool) (cs : List Char) : Option Double :=
  let word := String.ofList (cs.map Char.toLower)
  if word = "inf" || word = "infinity" then some (.infinite negative)
  else if word = "nan" then some .notANumber
  else ofUnsigned? negative cs

/-- The number that a text is; blanks may stand around it and one sign in front. -/
def ofChars? (cs : List Char) : Option Double :=
  match Text.plainForm cs with
  | '-' :: rest => ofWord? true rest
  | '+' :: rest => ofWord? false rest
  | rest => ofWord? false rest

end Double

end StreamTypes.Decimal
