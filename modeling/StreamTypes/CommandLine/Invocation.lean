import StreamTypes.CommandLine.Grammar
import StreamTypes.Text.Numeral

/-!
# Requests to the program

There are three commands: to print an expression in canonical form, to draw it, and
to serve the playground. Options for the whole program stand before the command.

## Main definitions

- `Command` — the commands with their options
- `Invocation` — a command and the options for the whole program
- `Invocation.ofArgs?` — the request that a command line makes
-/

namespace StreamTypes.CommandLine

/-- A request to print an expression. -/
structure ParseRequest where
  /-- The expression, or a dash if it comes from the input. -/
  expression : String := ""
  /-- Whether it is an expression for data. -/
  data : Bool := false
  /-- Whether it is printed as JSON. -/
  json : Bool := false
  deriving DecidableEq, Repr

/-- A request to draw an expression. -/
structure DotRequest where
  /-- The expression, or a dash if it comes from the input. -/
  expression : String := ""
  /-- The file that the drawing goes to. -/
  output : Option (Given String) := none
  /-- The layout direction, if it is not the configured one. -/
  rankdir : Option (Given RankDir) := none
  /-- Whether cluster boundaries are left out. -/
  noClusters : Bool := false
  deriving DecidableEq, Repr

/-- A request to serve the playground. -/
structure ServeRequest where
  port : Given Int := .value 8050
  host : Given String := .value "127.0.0.1"
  deriving DecidableEq, Repr

/-- A command. -/
inductive Command where
  | parse (request : ParseRequest)
  | dot (request : DotRequest)
  | serve (request : ServeRequest)
  deriving DecidableEq, Repr

/-- A request to the program. -/
structure Invocation where
  /-- The configuration file, if it is not the one in the working directory. -/
  config : Option (Given String) := none
  command : Option Command := none
  deriving DecidableEq, Repr

/-- The options and the operand of `parse`. -/
def parseGrammar : Grammar ParseRequest :=
  ⟨.parse,
    [.help,
      ⟨["--data"], .flag fun r => { r with data := true }⟩,
      ⟨["--json"], .flag fun r => { r with json := true }⟩],
    .word "expression" fun text r => { r with expression := text }⟩

/-- The layout direction that an option names. -/
def direction? (name : String) : Except Complaint RankDir :=
  match RankDir.ofName? (.ofString name) with
  | some d => .ok d
  | none => .error (.notChoice "--rankdir" name (RankDir.all.map RankDir.name))

/-- The options and the operand of `dot`. -/
def dotGrammar : Grammar DotRequest :=
  ⟨.dot,
    [.help,
      ⟨["-o", "--output"], .value fun given r => .ok { r with output := some given }⟩,
      ⟨["--rankdir"], .value fun given r => do
        return { r with rankdir := some (← given.convert? direction?) }⟩,
      ⟨["--no-clusters"], .flag fun r => { r with noClusters := true }⟩],
    .word "expression" fun text r => { r with expression := text }⟩

/-- The port that an option gives. -/
def port? (text : String) : Except Complaint Int :=
  match Text.readInteger? 10 text.toList with
  | .ok n => .ok n
  | .error _ => .error (.notInteger "--port" text)

/-- The options of `serve`. -/
def serveGrammar : Grammar ServeRequest :=
  ⟨.serve,
    [.help,
      ⟨["--port"], .value fun given r => do return { r with port := ← given.convert? port? }⟩,
      ⟨["--host"], .value fun given r => .ok { r with host := given }⟩],
    .nothing⟩

/-- The command that words make, and the words of no meaning. -/
def Command.ofWords? : List String → Except Halt (Command × List String)
  | [] => .error (.misuse .program (.missingOperand "COMMAND"))
  | name :: args =>
    if name = "parse" then do
      let (request, extras) ← parseGrammar.read? {} args
      return (.parse request, extras)
    else if name = "dot" then do
      let (request, extras) ← dotGrammar.read? {} args
      return (.dot request, extras)
    else if name = "serve" then do
      let (request, extras) ← serveGrammar.read? {} args
      return (.serve request, extras)
    else .error (.misuse .program (.notChoice "COMMAND" name Topic.commands))

/-- The options of the whole program, and the command after them. The words that have no
meaning for the command are kept beside the request. -/
def programGrammar : Grammar (Invocation × List String) :=
  ⟨.program,
    [.help,
      ⟨["--config"], .value fun given (r, extras) =>
        .ok ({ r with config := some given }, extras)⟩],
    .rest fun words (r, _) => do
      let (command, extras) ← Command.ofWords? words
      return ({ r with command := some command }, extras)⟩

/-- The request that a command line makes. -/
def Invocation.ofArgs? (args : List String) : Except Halt Invocation := do
  let ((invocation, inner), outer) ← programGrammar.read? ({}, []) args
  match outer ++ inner with
  | [] => return invocation
  | extras => throw (.misuse .program (.unrecognized extras))

end StreamTypes.CommandLine
