import StreamTypes.Text.Digits

/-!
# Whole numbers in words

How a whole number is read from a text that is meant to be one: blanks around it, a
sign, digits of any script, and single underscores between digits are allowed, and for
binary, octal and hexadecimal numbers also their mark.

## Main definitions

- `NumeralFault` — why a text is no whole number
- `readInteger?` — the whole number that a text is
-/

namespace StreamTypes.Text

/-- Why a text is no whole number. -/
inductive NumeralFault where
  | malformed
  /-- It has more digits than are read. -/
  | tooLong (digits : Nat)
  deriving DecidableEq, Repr

/-- A digit below a base. -/
def isDigitIn (base : Nat) (c : Char) : Bool :=
  (hexValue? c).any (· < base)

/-- Whether underscores stand only between two digits. -/
def isGrouped : List Char → Bool
  | [] => true
  | '_' :: [] => false
  | '_' :: '_' :: _ => false
  | _ :: cs => isGrouped cs

/-- Whether a base is a power of two, whose numerals may have any length. -/
def isBinaryBase (base : Nat) : Bool :=
  base = 2 || base = 8 || base = 16

/-- The digits after the mark of a base, which an underscore may follow, or all of
them. -/
def afterBaseMark (base : Nat) (cs : List Char) : List Char :=
  let marks : List Char :=
    if base = 16 then ['x', 'X'] else if base = 8 then ['o', 'O'] else if base = 2 then ['b', 'B']
    else []
  match cs with
  | '0' :: mark :: rest =>
    if marks.contains mark then
      match rest with
      | '_' :: rest => rest
      | _ => rest
    else cs
  | _ => cs

/-- The natural number that digits in a base are. -/
def readDigits? (base : Nat) (cs : List Char) : Except NumeralFault Nat :=
  let inClass (c : Char) : Bool := isDigitIn base c || c = '_'
  let run := cs.takeWhile inClass
  let digits := run.filter (· ≠ '_')
  if run.head? = some '_' || !isGrouped run then .error .malformed
  else if !isBinaryBase base && numeralLimit < digits.length then .error (.tooLong digits.length)
  else if digits.isEmpty || !(cs.dropWhile inClass).isEmpty then .error .malformed
  else .ok (digits.foldl (fun n d => base * n + (hexValue? d).getD 0) 0)

/-- The whole number that a text is in a base. -/
def readInteger? (base : Nat) (cs : List Char) : Except NumeralFault Int :=
  let natural (cs : List Char) : Except NumeralFault Nat := readDigits? base (afterBaseMark base cs)
  match plainForm cs with
  | '-' :: rest => (natural rest).map fun n => -(n : Int)
  | '+' :: rest => (natural rest).map Int.ofNat
  | rest => (natural rest).map Int.ofNat

end StreamTypes.Text
