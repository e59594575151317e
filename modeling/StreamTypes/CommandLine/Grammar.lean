import StreamTypes.CommandLine.Word

/-!
# Reading a command line

Words are read from left to right. Each option changes a request, and so does the
one operand that there may be; words that are left over are collected.

## Main definitions

- `Grammar` — the options and the operand of a command
- `Grammar.read?` — the request that a command line makes
-/

namespace StreamTypes.CommandLine

/-- What a command takes besides options. -/
inductive Operand (σ : Type) where
  | nothing
  /-- One word, which must be given. -/
  | word (name : String) (set : String → σ → σ)
  /-- One word and everything after it. -/
  | rest (set : List String → σ → Except Halt σ)

/-- The options and the operand of a command. -/
structure Grammar (σ : Type) where
  /-- What the help of the command describes. -/
  topic : Topic
  switches : List (Switch σ)
  operand : Operand σ

namespace Grammar

variable {σ : Type}

/-- Something is wrong. -/
def misuse {α : Type} (g : Grammar σ) (complaint : Complaint) : Except Halt α :=
  .error (.misuse g.topic complaint)

/-- What one word of options stands for: options without a value, then perhaps one with a
value, which may be in the word. -/
structure Cluster (σ : Type) where
  flags : List (Switch σ)
  valued : Option (Switch σ × Option String) := none

/-- An option that stands alone or last in its word. -/
def Cluster.single (s : Switch σ) (value : Option String) : Cluster σ :=
  if s.takesValue then ⟨[], some (s, value)⟩ else ⟨[s], none⟩

/-- A cluster with one more option in front. -/
def Cluster.cons (s : Switch σ) (cluster : Cluster σ) : Cluster σ :=
  { cluster with flags := s :: cluster.flags }

/-- What a word of options stands for, where the name of `s` is followed by the characters
`given`. Options behind a single dash may be put together, and all but the last of them
take no value. -/
def together (g : Grammar σ) (s : Switch σ) (long : Bool) (given : List Char) :
    Except Halt (Cluster σ) :=
  if s.takesValue then .ok (.single s (String.ofList given))
  else
    let needless := g.misuse (.needlessValue s.title (String.ofList given))
    match long, given with
    | false, c :: more =>
      match Switch.find? g.switches (String.ofList ['-', c]), more with
      | none, _ => needless
      | some next, [] => .ok ((Cluster.single next none).cons s)
      | some next, more => (g.together next false more).map (Cluster.cons s)
    | _, _ => needless

/-- What an option stands for, with what is attached to its name. -/
def cluster? (g : Grammar σ) (s : Switch σ) (name : String) (given : Option String) :
    Except Halt (Cluster σ) :=
  match given with
  | none => .ok (.single s none)
  | some given => g.together s (name.toList[1]? = some '-') given.toList

/-- The request after an option that has no value. -/
def applyFlag (g : Grammar σ) (request : σ) (s : Switch σ) : Except Halt σ :=
  match s.effect with
  | .help => .error (.help g.topic)
  | .flag set => .ok (set request)
  | .value _ => g.misuse (.missingValue s.title)

/-- The request after an option that has a value. -/
def applyValue (g : Grammar σ) (request : σ) (s : Switch σ) (value : String) : Except Halt σ :=
  match s.effect with
  | .value set =>
    match set (.ofText value) request with
    | .ok request => .ok request
    | .error complaint => g.misuse complaint
  | _ => g.misuse (.needlessValue s.title value)

/-- How far a command line is read. -/
structure Progress (σ : Type) where
  request : σ
  /-- Whether the operand is yet to come. -/
  pending : Bool := true
  /-- Whether the operand has just been read. -/
  fresh : Bool := false
  /-- The options of the word before, if the last of them still needs a value. -/
  awaiting : Option (List (Switch σ) × Switch σ) := none
  /-- The words of no meaning. -/
  extras : List String := []

/-- The progress after some words of no meaning. -/
def Progress.skip (p : Progress σ) (words : List String) : Progress σ :=
  { p with extras := p.extras ++ words, fresh := false }

/-- Reads the words after two dashes, all of which are operands. Two dashes right before
the operand or right after it belong to it. -/
def readAfter (g : Grammar σ) (p : Progress σ) (words : List String) :
    Except Halt (Progress σ) :=
  match g.operand, p.pending, words with
  | .word _ set, true, first :: more =>
    .ok { p.skip more with request := set first p.request, pending := false }
  | .rest set, true, _ :: _ => do
    return { p with request := ← set ("--" :: words) p.request, pending := false }
  | _, _, _ => .ok (p.skip (if p.fresh then words else "--" :: words))

/-- The progress after options of which the last may have a value. -/
def readSwitches (g : Grammar σ) (p : Progress σ) (flags : List (Switch σ))
    (valued : Option (Switch σ × String)) : Except Halt (Progress σ) := do
  let request ← flags.foldlM g.applyFlag p.request
  let request ← match valued with
    | some (last, value) => g.applyValue request last value
    | none => pure request
  return { p with request := request, fresh := false, awaiting := none }

/-- Reads words from left to right, and then those after two dashes. -/
def readWords (g : Grammar σ) (after : Option (List String)) :
    List (Word σ) → Progress σ → Except Halt (Progress σ)
  | [], p =>
    match p.awaiting with
    | some (_, last) => g.misuse (.missingValue last.title)
    | none => (after.map (g.readAfter p)).getD (.ok p)
  | word :: words, p =>
    match p.awaiting, word with
    -- The option before this word takes it as its value.
    | some (flags, last), .operand value => do
      g.readWords after words (← g.readSwitches p flags (some (last, value)))
    | some (_, last), _ => g.misuse (.missingValue last.title)
    | none, .unknown text => g.readWords after words (p.skip [text])
    | none, .switch _ s name given => do
      let cluster ← g.cluster? s name given
      match cluster.valued with
      | some (last, none) =>
        g.readWords after words { p with awaiting := some (cluster.flags, last) }
      | some (last, some value) =>
        g.readWords after words (← g.readSwitches p cluster.flags (some (last, value)))
      | none => g.readWords after words (← g.readSwitches p cluster.flags none)
    | none, .operand text =>
      -- The first operand is read here; another one is left over.
      match g.operand, p.pending with
      | .word _ set, true =>
        g.readWords after words
          { p with request := set text p.request, pending := false, fresh := true }
      | .rest set, true => do
        let more := words.map Word.text ++ (after.map ("--" :: ·)).getD []
        return { p with request := ← set (text :: more) p.request, pending := false }
      | _, _ => g.readWords after words (p.skip [text])

/-- The request that a command line makes, and the words of no meaning. -/
def read? (g : Grammar σ) (start : σ) (args : List String) : Except Halt (σ × List String) :=
  match Word.ofArgs? g.switches args with
  | .error complaint => g.misuse complaint
  | .ok (words, after) => do
    let p ← g.readWords after words ⟨start, true, false, none, []⟩
    match g.operand, p.pending with
    | .word name _, true => g.misuse (.missingOperand name)
    | _, _ => return (p.request, p.extras)

end Grammar

end StreamTypes.CommandLine
