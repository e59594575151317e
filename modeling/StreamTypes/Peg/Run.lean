import StreamTypes.Peg.State
import StreamTypes.Peg.Syntax

/-!
# Running a parsing expression

An expression is run from a state and a position. It is accepted with a value
and a new position, or it does not match, or it exceeds the depth bound. A
choice, an option or a list catches only the second of these and then forgets
the nodes that the unsuccessful attempt has stored; going too deep ends the whole
parse.

A rule may refer to itself, so references are followed only to a given number of
levels. A run that needs more ends as `exhausted`, which nothing catches.

## Main definitions

- `Outcome` — the four ways in which a run ends
- `Parser.eval` — runs an expression, given a way to run rules
- `Parser.evalWithin` — runs an expression with a limit on nested references
-/

namespace StreamTypes.Peg

/-- How the run of a parsing expression ends. -/
inductive Outcome (α : Type) where
  /-- The expression matched, and the text continues at `next`. -/
  | accepted (value : α) (next : Nat)
  /-- The expression did not match at `pos`. -/
  | backtracked (pos : Nat)
  /-- The depth bound was exceeded at `pos`. -/
  | tooDeep (pos : Nat)
  | exhausted
  deriving Repr

/-- Runs from a state and a position, to an outcome and a new state. -/
abbrev Run (ν α : Type) : Type :=
  State ν → Nat → Outcome α × State ν

/-- Whether the text holds the given characters at a position. Past the end of the
text not even the empty text is found. -/
def holdsAt (text : Array Char) : Nat → List Char → Bool
  | pos, [] => pos ≤ text.size
  | pos, c :: cs => text[pos]? == some c && holdsAt text (pos + 1) cs

/-- The end of the longest run of characters of a class that starts at a position
and has at most `fuel` characters. -/
def spanEnd (text : Array Char) (inClass : Char → Bool) : Nat → Nat → Nat
  | 0, pos => pos
  | fuel + 1, pos =>
    if text[pos]?.any inClass then spanEnd text inClass fuel (pos + 1) else pos

/-- The characters of the longest run of a class that starts at a position. -/
def spanAt (text : Array Char) (inClass : Char → Bool) (pos : Nat) : List Char :=
  (text.extract pos (spanEnd text inClass (text.size - pos) pos)).toList

/-- The characters that may follow a comma. -/
def isGap (c : Char) : Bool :=
  c = ' ' || c = '\t'

namespace Run

variable {ν α β : Type}

/-- Matches the empty text and yields a value. -/
@[inline] def yield (value : α) : Run ν α := fun s pos =>
  (.accepted value pos, s)

/-- Does not match. -/
@[inline] def giveUp : Run ν α := fun s pos =>
  (.backtracked pos, s)

/-- Does not match, and notes what was expected. -/
def missing (expectation : Expectation) : Run ν α := fun s pos =>
  (.backtracked pos, s.record pos expectation)

/-- Goes on with a second run where the first one was accepted. -/
@[inline] def andThen (first : Run ν α) (next : α → Run ν β) : Run ν β := fun s pos =>
  match first s pos with
  | (.accepted value mid, s') => next value s' mid
  | (.backtracked failedAt, s') => (.backtracked failedAt, s')
  | (.tooDeep failedAt, s') => (.tooDeep failedAt, s')
  | (.exhausted, s') => (.exhausted, s')

/-- Tries a second run where the first one does not match. The nodes that the
first one has stored are forgotten. -/
@[inline] def recover (first second : Run ν α) : Run ν α := fun s pos =>
  let mark := s.arena.size
  match first s pos with
  | (.backtracked _, s') => second (s'.truncate mark) pos
  | (.accepted value next, s') => (.accepted value next, s')
  | (.tooDeep failedAt, s') => (.tooDeep failedAt, s')
  | (.exhausted, s') => (.exhausted, s')

/-- A run that may fail to match, in which case the empty text is matched. -/
@[inline] def optional (body : Run ν α) : Run ν (Option α) :=
  (body.andThen fun value => yield (some value)).recover (yield none)

/-- Repeats a run until it does not match any more, and yields the values in
order. What the last, unsuccessful round has stored is forgotten. -/
def repeated (step : Run ν α) (rounds : Nat) (values : List α) (s : State ν) (pos : Nat) :
    Outcome (List α) × State ν :=
  match rounds with
  | 0 => (.exhausted, s)
  | rounds + 1 =>
    (optional step).andThen (fun value s' next =>
      match value with
      | none => (.accepted values.reverse next, s')
      | some value => repeated step rounds (value :: values) s' next) s pos

/-- A run one level deeper, if the depth bound allows it. -/
def deeper (maxDepth : Int) (body : Run ν α) : Run ν α := fun s pos =>
  if maxDepth ≤ s.depth then (.tooDeep pos, s.recordDepth pos)
  else
    match body s.enter pos with
    | (outcome, s') => (outcome, s'.leave)

/-- Matches a text. -/
def literal (input : Input) (text : String) : Run ν String := fun s pos =>
  if holdsAt input.text pos text.toList then (.accepted text (pos + text.length), s)
  else missing (.literal text) s pos

/-- Matches a numeral. -/
def unsigned (input : Input) : Run ν Nat := fun s pos =>
  let digits := spanAt input.text Char.isDigit pos
  if digits.isEmpty then missing .unsigned s pos
  else if Text.numeralLimit < digits.length then missing .shorterUnsigned s pos
  else (.accepted (Text.digitsValue digits) (pos + digits.length), s)

/-- Matches spaces and tabs. -/
def blanks (input : Input) : Run ν String := fun s pos =>
  let gap := spanAt input.text isGap pos
  (.accepted (String.ofList gap) (pos + gap.length), s)

/-- Matches the end of the text. -/
def endOfInput (input : Input) : Run ν Unit := fun s pos =>
  if pos = input.text.size then (.accepted () pos, s) else missing .endOfInput s pos

end Run

namespace Parser

variable {ν : Type} {ρ : Type → Type}

/-- Runs an expression, where `call` runs the rules it refers to. The rounds of a
list are counted against the length of the text, since a round that does not move
on would be repeated for ever. -/
def eval (input : Input) (call : ∀ {α : Type}, ρ α → Run ν α) :
    ∀ {α : Type}, Parser ν ρ α → Run ν α
  | _, .pure value => Run.yield value
  | _, .fail => Run.giveUp
  | _, .literal text => Run.literal input text
  | _, .unsigned => Run.unsigned input
  | _, .blanks => Run.blanks input
  | _, .endOfInput => Run.endOfInput input
  | _, .both first second =>
    (eval input call first).andThen fun a =>
      (eval input call second).andThen fun b => Run.yield (a, b)
  | _, .orElse first second =>
    (eval input call first).recover ((eval input call second).recover Run.giveUp)
  | _, .opt body => Run.optional (eval input call body)
  | _, .sepBy1 item separator =>
    let next := (eval input call separator).andThen fun _ => eval input call item
    (eval input call item).andThen fun head s pos =>
      Run.andThen (Run.repeated next (input.text.size - pos + 1) [])
        (fun tail => Run.yield (head, tail)) s pos
  | _, .map f body => (eval input call body).andThen fun value => Run.yield (f value)
  | _, .nested body => Run.deeper input.maxDepth (eval input call body)
  | _, .alloc build body =>
    (eval input call body).andThen fun value s pos =>
      (.accepted s.arena.size pos, s.push (build value))
  | _, .ref rule => call rule

/-- Runs an expression in which at most `limit` references are nested. -/
def evalWithin (input : Input) (rules : Rules ν ρ) :
    Nat → ∀ {α : Type}, Parser ν ρ α → Run ν α
  | 0, _, p => p.eval input (fun _ s _ => (.exhausted, s))
  | limit + 1, _, p => p.eval input (fun rule => evalWithin input rules limit (rules rule))

end Parser

end StreamTypes.Peg
