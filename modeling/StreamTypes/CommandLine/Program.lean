import StreamTypes.CommandLine.Invocation
import StreamTypes.CommandLine.Script
import StreamTypes.Config.Reader
import StreamTypes.Data.Grammar
import StreamTypes.Playground

/-!
# The program

What the program does for a command line, given a loader of YAML texts. The configuration
is read before a command is carried out; a wrong command line, a request for help or the
lack of a command does not need it.

## Main definitions

- `report` — what is said about an expression that cannot be read
- `Command.script` — how a command is carried out
- `program` — what the program does for a command line
-/

namespace StreamTypes.CommandLine

/-- What is said about an expression that cannot be read: why, and below the expression
a mark where reading stopped. -/
def report (source : String) (error : Peg.ParseError) : String :=
  "Error: " ++ error.message ++ "\n" ++
    "  " ++ source ++ "\n" ++ "  " ++ String.ofList (List.replicate error.offset ' ') ++ "^\n"

/-- Goes on with an expression without the blanks around it; a dash stands for the
input. -/
def withSource (expression : String) (next : String → Script) : Script :=
  if expression = "-" then .readInput fun input => next (Text.trim input)
  else next (Text.trim expression)

/-- Goes on with the result of reading an expression, or reports why there is none. -/
def whenRead {α : Type} (source : String) (result : Except River.Rejection α)
    (next : α → Script) : Script :=
  match result with
  | .ok result => next result
  | .error (.parse error) => .complain (report source error) (.stop 1)
  | .error (.shape error) => .crash (.shape error)

namespace ParseRequest

/-- The text of an expression, in canonical form or as JSON. -/
def text? (r : ParseRequest) (source : String) (maxDepth : Int)
    (limit : Nat := Peg.defaultLimit) : Except River.Rejection String :=
  if r.data then
    match Data.parseWithin limit source maxDepth with
    | .error error => .error (.parse error)
    | .ok data => .ok (if r.json then data.toJson.indented else data.text)
  else
    match River.parseWithin limit source maxDepth with
    | .error error => .error error
    | .ok tree => .ok (if r.json then tree.toJson.indented else tree.text)

/-- Prints the text of the expression. -/
def script (r : ParseRequest) (config : Config) (limit : Nat := Peg.defaultLimit) : Script :=
  withSource r.expression fun source =>
    whenRead source (r.text? source config.maxDepth limit) fun text =>
      .say (text ++ "\n") (.stop 0)

end ParseRequest

namespace DotRequest

/-- The presentation settings: those of the request take precedence. -/
def options? (r : DotRequest) (standard : DotOptions) : Except Crash DotOptions :=
  let options (rankdir : RankDir) : DotOptions :=
    { standard with rankdir := rankdir, clusters := standard.clusters && !r.noClusters }
  match r.rankdir with
  | none => .ok (options standard.rankdir)
  | some (.value rankdir) => .ok (options rankdir)
  | some .blank => .error .blankDirection

/-- Writes a drawing to a file. If there are no bytes for it, the file is empty. -/
def save (path : Path) (dot : WideText) : Script :=
  let bytes := Text.Utf8.encode? dot
  .writeFile path (bytes.toOption.getD []) fun
    | none =>
      match bytes with
      | .ok _ => .say ("Wrote graph to '" ++ path.text ++ "'.\n") (.stop 0)
      | .error fault => .crash (.unencodable fault)
    | some .nulInPath => .crash .nulInPath
    | some fault =>
      .complain ("Error: cannot write '" ++ path.text ++ "': " ++ fault.message path ++ "\n")
        (.stop 1)

/-- Prints the drawing of the expression, or writes it to a file. -/
def script (r : DotRequest) (config : Config) (limit : Nat := Peg.defaultLimit) : Script :=
  match r.options? config.render with
  | .error fault => .crash fault
  | .ok options =>
    withSource r.expression fun source =>
      whenRead source (render source options config.maxDepth limit) fun dot =>
        match r.output with
        | none => .print dot (.stop 0)
        | some .blank => .crash .blankPath
        | some (.value output) => save (Path.ofString output) dot

end DotRequest

namespace ServeRequest

/-- Announces the playground and serves it. -/
def script (r : ServeRequest) : Script :=
  .say ("Serving playground at http://" ++ r.host.text id ++ ":" ++ r.port.text toString ++ "/\n")
    (.serve ⟨r.host, r.port, Playground.title⟩ (.stop 0))

end ServeRequest

/-- How a command is carried out. -/
def Command.script (command : Command) (config : Config) (limit : Nat := Peg.defaultLimit) :
    Script :=
  match command with
  | .parse request => request.script config limit
  | .dot request => request.script config limit
  | .serve request => request.script

/-- Goes on with the settings, or reports what is wrong with the file. -/
def whenLoaded (settings : Except LoadFault Config) (next : Config → Script) : Script :=
  match settings with
  | .ok config => next config
  | .error (.rejected error) => .complain ("Error: " ++ error.message ++ "\n") (.stop 1)
  | .error fault => .crash (.load fault)

section

variable (load : Yaml.Loader) (home : Path)

/-- Goes on with the settings in a given file, or else with those of the working
directory `home`, or else with the standard ones. -/
def withConfig (given : Option (Given String)) (next : Config → Script) : Script :=
  match given with
  | some .blank => .crash .blankPath
  | some (.value text) =>
    let path := Path.ofString text
    .readFile path fun contents => whenLoaded (Config.ofFile? load path contents) next
  | none =>
    let path := home.child Config.fileName
    .testFile path fun found =>
      if found then
        .readFile path fun contents => whenLoaded (Config.ofFile? load path contents) next
      else next {}

/-- What the program does for a request. -/
def Invocation.script (invocation : Invocation) (limit : Nat := Peg.defaultLimit) : Script :=
  match invocation.command with
  | none => .say Topic.program.help (.stop 0)
  | some command =>
    withConfig load home invocation.config fun config => command.script config limit

/-- What the program does for a command line in the working directory `home`, following at
most `limit` nested references to the rules of a grammar. -/
def program (args : List String) (limit : Nat := Peg.defaultLimit) : Script :=
  match Invocation.ofArgs? args with
  | .error (.help topic) => .say topic.help (.stop 0)
  | .error (.misuse topic complaint) => .complain (complaint.report topic) (.stop 2)
  | .ok invocation => invocation.script load home limit

end

end StreamTypes.CommandLine
