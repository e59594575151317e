import StreamTypes.Text.Digits
import StreamTypes.Text.Quoted

/-!
# Parser states

What a parse reads and what it changes. The text and the depth bound never
change; the state holds the current nesting depth, the nodes stored so far, the
furthest position at which a primitive did not match, and what was expected
there.

## Main definitions

- `Expectation` — what a primitive would have accepted
- `Input` — the text and the depth bound
- `State` — the changing part
- `State.record` — notes a failed primitive
-/

namespace StreamTypes.Peg

/-- What a primitive would have accepted at the position where it failed. -/
inductive Expectation where
  | literal (text : String)
  | unsigned
  | shorterUnsigned
  | endOfInput
  /-- Anything else, in words. -/
  | described (text : String)
  deriving DecidableEq, Repr

/-- How an expectation is listed in an error message. -/
def Expectation.describe : Expectation → String
  | .literal text => Text.quoted text
  | .unsigned => "unsigned integer"
  | .shorterUnsigned =>
    "unsigned integer of at most " ++ Nat.repr Text.numeralLimit ++ " digits"
  | .endOfInput => "end of input"
  | .described text => text

/-- The text that is parsed and the deepest nesting that is accepted. -/
structure Input where
  text : Array Char
  /-- How many forms may be nested; a negative bound admits none. -/
  maxDepth : Int

/-- The input that consists of a text and a depth bound. -/
def Input.ofString (source : String) (maxDepth : Int) : Input :=
  ⟨source.toList.toArray, maxDepth⟩

/-- What changes during a parse that stores nodes of type `ν`. -/
structure State (ν : Type) where
  /-- The number of nested forms around the current position. -/
  depth : Int := 0
  arena : Array ν := #[]
  /-- The furthest position at which a primitive did not match. -/
  furthest : Nat := 0
  /-- What was expected at the furthest position. -/
  expected : List Expectation := []
  /-- The position at which the depth bound was exceeded for the first time. -/
  tooDeepAt : Option Nat := none

namespace State

variable {ν : Type}

/-- Notes that a primitive did not match. Only the expectations at the furthest
position are kept. -/
def record (s : State ν) (pos : Nat) (expectation : Expectation) : State ν :=
  if s.furthest < pos then { s with furthest := pos, expected := [expectation] }
  else if s.furthest = pos then { s with expected := s.expected.insert expectation }
  else s

/-- Forgets all nodes but the first `mark`. -/
def truncate (s : State ν) (mark : Nat) : State ν :=
  { s with arena := s.arena.shrink mark }

/-- Stores a node. -/
def push (s : State ν) (node : ν) : State ν :=
  { s with arena := s.arena.push node }

/-- The state one level further in. -/
def enter (s : State ν) : State ν :=
  { s with depth := s.depth + 1 }

/-- The state one level further out. -/
def leave (s : State ν) : State ν :=
  { s with depth := s.depth - 1 }

/-- Notes that the depth bound was exceeded; only the first time counts. -/
def recordDepth (s : State ν) (pos : Nat) : State ν :=
  { s with tooDeepAt := s.tooDeepAt <|> some pos }

/-- The expectations as they are listed in an error: in words, each once, in the
order of their code points. -/
def listed (s : State ν) : List String :=
  ((s.expected.map Expectation.describe).eraseDups).mergeSort (fun a b => decide (a ≤ b))

end State

end StreamTypes.Peg
