import StreamTypes.CommandLine.Program
import StreamTypes.Yaml.Loader

/-!
# The executable

Carries out scripts in the real world, where the output stores bytes. A server is only
announced: what its pages show is `Playground.page` and `Playground.respond`, and sending them is
left to a web server.
-/

namespace StreamTypes.CommandLine

/-- The number and the text of an error from the system. -/
def systemCode : IO.Error → Nat × String
  | .noFileOrDirectory _ code details => (code.toNat, details)
  | .inappropriateType _ code details => (code.toNat, details)
  | .invalidArgument _ code details => (code.toNat, details)
  | .permissionDenied _ code details => (code.toNat, details)
  | .resourceExhausted _ code details => (code.toNat, details)
  | .alreadyExists _ code details => (code.toNat, details)
  | .noSuchThing _ code details => (code.toNat, details)
  | .interrupted _ code details => (code.toNat, details)
  | .otherError code details => (code.toNat, details)
  | .resourceBusy code details => (code.toNat, details)
  | .resourceVanished code details => (code.toNat, details)
  | .unsupportedOperation code details => (code.toNat, details)
  | .hardwareFault code details => (code.toNat, details)
  | .unsatisfiedConstraints code details => (code.toNat, details)
  | .illegalOperation code details => (code.toNat, details)
  | .protocolError code details => (code.toNat, details)
  | .timeExpired code details => (code.toNat, details)
  | .unexpectedEof => (5, "Unexpected end of file")
  | .userError details => (5, details)

/-- The fault behind an error from the system, whose number may be given as the negative
of the usual one. -/
def faultOf (error : IO.Error) : FileFault :=
  let (code, details) := systemCode error
  .ofCode (if code < 0x80000000 then code else 0x100000000 - code) details

/-- Tries to use the file at a path. -/
def tryFile {α : Type} (path : Path) (use : String → IO α) : IO (Except FileFault α) := do
  if path.text.toList.contains '\x00' then return .error .nulInPath
  try
    return .ok (← use path.text)
  catch error =>
    return .error (faultOf error)

/-- Reads the contents of a file. -/
def readContents (path : Path) : IO (Except FileFault (List UInt8)) :=
  tryFile path fun name => do return (← IO.FS.readBinFile name).toList

/-- All of the input that is left. -/
partial def readRest (input : IO.FS.Stream) (before : ByteArray) : IO ByteArray := do
  let more ← input.read 65536
  if more.isEmpty then return before else readRest input (before ++ more)

/-- All of the input as a text. -/
def inputText : IO String := do
  match Text.Utf8.decode? (← readRest (← IO.getStdin) .empty).toList with
  | .ok text => return String.ofList (Text.unifiedLines text.toList)
  | .error fault => throw (IO.userError fault.message)

/-- Reports a fault that no rule foresees, and yields the exit code. -/
def reportCrash (fault : Crash) : IO UInt32 := do
  IO.eprintln fault.message
  return 1

/-- Carries out a script and yields the exit code. -/
def Script.perform : Script → IO UInt32
  | .stop exit => return exit.toUInt32
  | .crash fault => reportCrash fault
  | .print text next => do
    match Text.Utf8.encode? text with
    | .ok bytes =>
      (← IO.getStdout).write ⟨bytes.toArray⟩
      next.perform
    | .error fault => reportCrash (.unencodable fault)
  | .complain text next => do
    IO.eprint text
    next.perform
  | .readInput next => do (next (← inputText)).perform
  | .testFile path next => do
    -- A file that is there need not be readable.
    let isFile := match ← readContents path with
      | .ok _ | .error (.other _ _) => true
      | .error _ => false
    (next isFile).perform
  | .readFile path next => do (next (← readContents path)).perform
  | .writeFile path bytes next => do
    match ← tryFile path fun name => IO.FS.writeBinFile name ⟨bytes.toArray⟩ with
    | .ok () => (next none).perform
    | .error fault => (next (some fault)).perform
  | .serve _ next => next.perform

end StreamTypes.CommandLine

/-- Carries out a command line. -/
def main (args : List String) : IO UInt32 := do
  let home := StreamTypes.Path.ofString (← IO.currentDir).toString
  (StreamTypes.CommandLine.program StreamTypes.Yaml.load home args).perform
