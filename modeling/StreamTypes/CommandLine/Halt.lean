import StreamTypes.Dot

/-!
# When the command line is not a request

A command line may ask for help, or it may be wrong; then nothing else is done.
Help describes the whole program or one of its commands, and so does the line of
usage in front of an error.

## Main definitions

- `Topic` — what help and usage describe
- `Topic.usage`, `Topic.help` — the texts
- `Complaint` — what is wrong with a command line
- `Halt` — why nothing is done
-/

namespace StreamTypes.CommandLine

/-- What help and usage describe. -/
inductive Topic where
  | program
  | parse
  | dot
  | serve
  deriving DecidableEq, Repr

namespace Topic

/-- The name of a topic in error messages. -/
def title : Topic → String
  | .program => "rivertype"
  | .parse => "rivertype parse"
  | .dot => "rivertype dot"
  | .serve => "rivertype serve"

/-- The names of the commands. -/
def commands : List String :=
  ["parse", "dot", "serve"]

/-- The layout directions as a choice. -/
def directions : String :=
  "\x7b" ++ String.intercalate "," (RankDir.all.map RankDir.name) ++ "\x7d"

/-- The lines that show how a command is used. -/
def usageLines : Topic → List String
  | .program => ["usage: rivertype [-h] [--config CONFIG] COMMAND ..."]
  | .parse => ["usage: rivertype parse [-h] [--data] [--json] expression"]
  | .dot =>
    ["usage: rivertype dot [-h] [-o OUTPUT] [--rankdir " ++ directions ++ "]",
      "                     [--no-clusters]",
      "                     expression"]
  | .serve => ["usage: rivertype serve [-h] [--port PORT] [--host HOST]"]

/-- The lines that explain a command. -/
def explanation : Topic → List String
  | .program =>
    ["RiverType - parse River stream types and render them as graphs",
      "",
      "positional arguments:",
      "  COMMAND",
      "    parse          Parse a type expression and print its AST",
      "    dot            Render a River type as a Graphviz digraph",
      "    serve          Launch the interactive playground",
      "",
      "options:",
      "  -h, --help       show this help message and exit",
      "  --config CONFIG  Path to a configuration file (default: .rivertype.yaml in",
      "                   the current directory, if present)"]
  | .parse =>
    ["Parse a River (or Data) type expression and print it in canonical form.",
      "",
      "positional arguments:",
      "  expression  The type expression, or '-' to read it from stdin",
      "",
      "options:",
      "  -h, --help  show this help message and exit",
      "  --data      Parse a Data type (Prim, Struct, Tuple, Seq, Variant) instead of",
      "              a River type",
      "  --json      Print the AST as JSON instead of canonical text"]
  | .dot =>
    ["Parse a River type expression and print its Graphviz DOT description.",
      "",
      "positional arguments:",
      "  expression            The River type expression, or '-' to read it from",
      "                        stdin",
      "",
      "options:",
      "  -h, --help            show this help message and exit",
      "  -o OUTPUT, --output OUTPUT",
      "                        Write the DOT text to this file instead of stdout",
      "  --rankdir " ++ directions,
      "                        Layout direction (default: from configuration,",
      "                        otherwise TB)",
      "  --no-clusters         Omit cluster boundaries"]
  | .serve =>
    ["Launch a web-based playground showing the AST and graph of a type expression.",
      "",
      "options:",
      "  -h, --help   show this help message and exit",
      "  --port PORT  Port to run the server on (default: 8050)",
      "  --host HOST  Host to bind the server to (default: 127.0.0.1)"]

/-- Lines as a text. -/
def textOf (lines : List String) : String :=
  String.join (lines.map fun line => line ++ "\n")

/-- How a command is used. -/
def usage (topic : Topic) : String :=
  textOf topic.usageLines

/-- How a command is used, and what it does. -/
def help (topic : Topic) : String :=
  textOf (topic.usageLines ++ [""] ++ topic.explanation)

end Topic

/-- What is wrong with a command line. -/
inductive Complaint where
  /-- A shortened option may be any of several ones. -/
  | ambiguous (word : String) (options : List String)
  | missingValue (argument : String)
  /-- An option that takes no value has one. -/
  | needlessValue (argument given : String)
  /-- A value is none of those to choose from. -/
  | notChoice (argument given : String) (choices : List String)
  | notInteger (argument given : String)
  /-- Something that must be given is missing. -/
  | missingOperand (name : String)
  | unrecognized (words : List String)
  deriving DecidableEq, Repr

/-- What is wrong with a command line, in words. -/
def Complaint.message : Complaint → String
  | .ambiguous word options =>
    "ambiguous option: " ++ word ++ " could match " ++ String.intercalate ", " options
  | .missingValue argument => "argument " ++ argument ++ ": expected one argument"
  | .needlessValue argument given =>
    "argument " ++ argument ++ ": ignored explicit argument " ++ Text.quoted given
  | .notChoice argument given choices =>
    "argument " ++ argument ++ ": invalid choice: " ++ Text.quoted given ++ " (choose from " ++
      String.intercalate ", " (choices.map Text.quoted) ++ ")"
  | .notInteger argument given =>
    "argument " ++ argument ++ ": invalid int value: " ++ Text.quoted given
  | .missingOperand name => "the following arguments are required: " ++ name
  | .unrecognized words => "unrecognized arguments: " ++ String.intercalate " " words

/-- What is said about a wrong command line. -/
def Complaint.report (topic : Topic) (complaint : Complaint) : String :=
  topic.usage ++ topic.title ++ ": error: " ++ complaint.message ++ "\n"

/-- Why nothing is done. -/
inductive Halt where
  | help (topic : Topic)
  | misuse (topic : Topic) (complaint : Complaint)
  deriving DecidableEq, Repr

end StreamTypes.CommandLine
