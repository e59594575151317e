/-!
# Texts with surrogates

Escape codes may name any code point, which includes the surrogates: they stand for a
character in pairs only, and no character stands for one of them. A text that is put
together from escape codes may therefore hold more than a string can.

## Main definitions

- `CodePoint` — characters and surrogates
- `WideText` — rows of code points
- `WideText.ofString`, `WideText.toString?` — how they are related to strings
-/

namespace StreamTypes

/-- A character, or a surrogate, given by its place among the surrogates. -/
inductive CodePoint where
  | char (c : Char)
  | surrogate (index : Fin 0x800)
  deriving DecidableEq, Repr

namespace CodePoint

/-- The code of a code point. -/
def code : CodePoint → Nat
  | .char c => c.toNat
  | .surrogate index => 0xD800 + index.val

/-- The code point with a code, if the code is small enough. -/
def ofCode? (n : Nat) : Option CodePoint :=
  if h : n.isValidChar then some (.char (Char.ofNatAux n h))
  else if n < 0x110000 then some (.surrogate (Fin.ofNat 0x800 (n - 0xD800)))
  else none

/-- The character, or the mark for a missing one in the place of a surrogate. -/
def shown : CodePoint → Char
  | .char c => c
  | .surrogate _ => '\uFFFD'

end CodePoint

/-- A text that may hold surrogates. -/
abbrev WideText : Type :=
  List CodePoint

namespace WideText

/-- A row of characters. -/
def ofChars (cs : List Char) : WideText :=
  cs.map .char

/-- A string. -/
def ofString (s : String) : WideText :=
  ofChars s.toList

/-- The characters, with a mark in the place of each surrogate. -/
def shown (t : WideText) : List Char :=
  t.map CodePoint.shown

/-- The characters of a text, unless it holds a surrogate. -/
def toChars? : WideText → Option (List Char)
  | [] => some []
  | .char c :: t => (toChars? t).map (c :: ·)
  | .surrogate _ :: _ => none

/-- The string that a text is, unless it holds a surrogate. -/
def toString? (t : WideText) : Option String :=
  (toChars? t).map String.ofList

/-- The order of texts by the codes of their code points: whether the first one comes
before the second one, or is equal to it. -/
def precedes : WideText → WideText → Bool
  | [], _ => true
  | _ :: _, [] => false
  | a :: s, b :: t => if a.code = b.code then precedes s t else a.code < b.code

end WideText

end StreamTypes
