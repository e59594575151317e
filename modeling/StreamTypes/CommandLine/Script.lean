import StreamTypes.CommandLine.Word
import StreamTypes.Config.Error
import StreamTypes.River.Shape

/-!
# What the program does to its surroundings

A script is a tree of single actions: each one but the last goes on with what the
surroundings answer. It can be run in a small world of files, an input and an output, where
all that it does is known.

## Main definitions

- `Script` — the trees of actions
- `Output` — what takes the texts that are printed
- `World`, `Outcome` — what a script finds and what it leaves
- `Script.run` — what a script does in a world
-/

namespace StreamTypes.CommandLine

/-- Faults that no rule of the program foresees. -/
inductive Crash where
  /-- The configuration cannot be read, and not because it is wrong. -/
  | load (fault : LoadFault)
  /-- The parser yields something that is no tree. -/
  | shape (error : River.ShapeError)
  /-- The path of an output file holds a NUL character. -/
  | nulInPath
  /-- An output cannot be stored as bytes. -/
  | unencodable (fault : Text.Utf8.EncodeFault)
  | blankPath
  | blankDirection
  deriving DecidableEq, Repr

/-- What is wrong, in words. -/
def Crash.message : Crash → String
  | .load fault => fault.message
  | .shape error => error.message
  | .nulInPath => LoadFault.nulInPath.message
  | .unencodable fault => fault.message
  | .blankPath => "expected str, bytes or os.PathLike object, not list"
  | .blankDirection =>
    "rankdir must be one of " ++ String.intercalate ", " (RankDir.all.map RankDir.name) ++
      ", got []"

/-- A web server with the playground. -/
structure Server where
  host : Given String
  port : Given Int
  title : String
  deriving DecidableEq, Repr

/-- A tree of actions. -/
inductive Script where
  | stop (exit : Nat)
  | crash (fault : Crash)
  | print (text : WideText) (next : Script)
  /-- Prints a text among the error messages. -/
  | complain (text : String) (next : Script)
  | readInput (next : String → Script)
  | testFile (path : Path) (next : Bool → Script)
  | readFile (path : Path) (next : Except FileFault (List UInt8) → Script)
  | writeFile (path : Path) (bytes : List UInt8) (next : Option FileFault → Script)
  | serve (server : Server) (next : Script)

/-- Prints a string. -/
def Script.say (text : String) (next : Script) : Script :=
  .print (.ofString text) next

/-- What takes the texts that are printed. -/
inductive Output where
  /-- Texts are stored as bytes, of which a surrogate has none. -/
  | bytes
  /-- Texts are kept as they are. -/
  | texts
  deriving DecidableEq, Repr

/-- Why a text is not taken, if it is not. -/
def Output.fault? : Output → WideText → Option Text.Utf8.EncodeFault
  | .bytes, text =>
    match Text.Utf8.encode? text with
    | .ok _ => none
    | .error fault => some fault
  | .texts, _ => none

/-- What a script finds. -/
structure World where
  files : FileTree
  /-- The text that is read from the input, in which all lines end alike. -/
  input : String
  output : Output := .bytes

/-- What a script leaves. -/
structure Outcome where
  /-- The exit code, or the fault that stopped the script. -/
  exit : Except Crash Nat
  printed : WideText := []
  /-- What is printed among the error messages. -/
  complaints : String := ""
  files : FileTree
  served : List Server := []

/-- What a script does in a world. -/
@[simp] def Script.run (w : World) : Script → Outcome
  | .stop exit => ⟨.ok exit, [], "", w.files, []⟩
  | .crash fault => ⟨.error fault, [], "", w.files, []⟩
  | .print text next =>
    match w.output.fault? text with
    | some fault => ⟨.error (.unencodable fault), [], "", w.files, []⟩
    | none =>
      let o := next.run w
      { o with printed := text ++ o.printed }
  | .complain text next =>
    let o := next.run w
    { o with complaints := text ++ o.complaints }
  | .readInput next => (next w.input).run w
  | .testFile path next => (next (w.files.isFile path)).run w
  | .readFile path next => (next (w.files.read path)).run w
  | .writeFile path bytes next =>
    match w.files.write path bytes with
    | .ok files => (next none).run { w with files := files }
    | .error fault => (next (some fault)).run w
  | .serve server next =>
    let o := next.run w
    { o with served := server :: o.served }

end StreamTypes.CommandLine
