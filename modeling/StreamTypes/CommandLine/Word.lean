import StreamTypes.CommandLine.Halt
import StreamTypes.Text.Digits

/-!
# Words of a command line

A word that begins with a dash is an option, unless it is a single dash, looks like a
negative number or holds a space. Long options may be shortened as long as only one
option begins that way. After a word of two dashes there are no options.

## Main definitions

- `Given` — what is given for an option
- `Switch` — an option and what it does
- `Word` — what a word is
- `Word.ofArgs?` — what the words of a command line are
-/

namespace StreamTypes.CommandLine

/-- What is given for an option: a value, or nothing, for which two dashes stand in the
place of a value. -/
inductive Given (α : Type) where
  | blank
  | value (a : α)
  deriving DecidableEq, Repr

namespace Given

/-- What a text in the place of a value gives. -/
def ofText (text : String) : Given String :=
  if text = "--" then .blank else .value text

/-- What is given, if a value can be converted. -/
def convert? {α β ε : Type} (f : α → Except ε β) : Given α → Except ε (Given β)
  | .blank => .ok .blank
  | .value a => (f a).map .value

/-- How it is shown. -/
def text {α : Type} (shown : α → String) : Given α → String
  | .blank => "[]"
  | .value a => shown a

end Given

/-- What an option does to a request. -/
inductive Effect (σ : Type) where
  | help
  | flag (set : σ → σ)
  /-- It takes a value that changes the request. -/
  | value (set : Given String → σ → Except Complaint σ)

/-- An option. -/
structure Switch (σ : Type) where
  /-- The names of the option, with their dashes. -/
  names : List String
  effect : Effect σ

namespace Switch

variable {σ : Type}

/-- The name of an option in error messages. -/
def title (s : Switch σ) : String :=
  String.intercalate "/" s.names

/-- Whether an option takes a value. -/
def takesValue (s : Switch σ) : Bool :=
  match s.effect with
  | .value _ => true
  | _ => false

/-- The option that asks for help. -/
def help : Switch σ :=
  ⟨["-h", "--help"], .help⟩

/-- All names with their options, in order. -/
def named (switches : List (Switch σ)) : List (String × Switch σ) :=
  switches.flatMap fun s => s.names.map fun name => (name, s)

/-- The option with a name. -/
def find? (switches : List (Switch σ)) (name : String) : Option (Switch σ) :=
  ((named switches).find? fun entry => entry.1 = name).map Prod.snd

end Switch

/-- What a word of a command line is. -/
inductive Word (σ : Type) where
  | operand (text : String)
  /-- An option by one of its names, perhaps with a value in the same word. -/
  | switch (text : String) (switch : Switch σ) (name : String) (given : Option String)
  | unknown (text : String)

namespace Word

variable {σ : Type}

/-- The word itself. -/
def text : Word σ → String
  | .operand text => text
  | .switch text _ _ _ => text
  | .unknown text => text

/-- A minus sign and a number, perhaps before a line break. -/
def isNegativeNumber : List Char → Bool
  | '-' :: cs =>
    let body := if cs.getLast? = some '\n' then cs.dropLast else cs
    let isDigit (c : Char) : Bool := (Text.decimalValue? c).isSome
    let isNumber (ds : List Char) : Bool := !ds.isEmpty && ds.all isDigit
    match body.dropWhile isDigit with
    | [] => isNumber body
    | '.' :: part => isNumber part
    | _ => false
  | _ => false

/-- The part of a word before its first equals sign, and the value after it. -/
def splitValue (cs : List Char) : String × Option String :=
  let name := String.ofList (cs.takeWhile (· ≠ '='))
  match cs.dropWhile (· ≠ '=') with
  | [] => (name, none)
  | _ :: value => (name, some (String.ofList value))

/-- The options that a word with dashes may mean though it is not the name of one: a
long option that begins this way, or a short one with its value behind it. -/
def readings (switches : List (Switch σ)) (cs : List Char) :
    List (String × Switch σ × Option String) :=
  match cs with
  | '-' :: '-' :: _ =>
    let (start, given) := splitValue cs
    (Switch.named switches).filterMap fun (name, s) =>
      if start.toList.isPrefixOf name.toList then some (name, s, given) else none
  | _ =>
    (Switch.named switches).filterMap fun (name, s) =>
      if name.toList = cs.take 2 then some (name, s, some (String.ofList (cs.drop 2)))
      else if cs.isPrefixOf name.toList then some (name, s, none)
      else none

/-- The option that a word names, alone or before an equals sign. -/
def named? (switches : List (Switch σ)) (text : String) :
    Option (String × Switch σ × Option String) :=
  match Switch.find? switches text with
  | some s => some (text, s, none)
  | none =>
    match splitValue text.toList with
    | (name, some given) => (Switch.find? switches name).map fun s => (name, s, some given)
    | (_, none) => none

/-- What a word is that does not come after two dashes. -/
def ofText? (switches : List (Switch σ)) (text : String) : Except Complaint (Word σ) :=
  let cs := text.toList
  if cs.head? ≠ some '-' || cs.length = 1 then .ok (.operand text)
  else
    match named? switches text with
    | some (name, s, given) => .ok (.switch text s name given)
    | none =>
      match readings switches cs with
      | [(name, s, given)] => .ok (.switch text s name given)
      | [] =>
        -- No option begins this way, so the word may still be an operand.
        if isNegativeNumber cs || cs.contains ' ' then .ok (.operand text)
        else .ok (.unknown text)
      | several => .error (.ambiguous text (several.map Prod.fst))

/-- What the words before two dashes are, and the words after them if there are two
dashes. -/
def ofArgs? (switches : List (Switch σ)) :
    List String → Except Complaint (List (Word σ) × Option (List String))
  | [] => .ok ([], none)
  | text :: args =>
    if text = "--" then .ok ([], some args)
    else do
      let word ← ofText? switches text
      let (words, after) ← ofArgs? switches args
      return (word :: words, after)

end Word

end StreamTypes.CommandLine
