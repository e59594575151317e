import StreamTypes.Files.Path
import StreamTypes.Text.Utf8

/-!
# Trees of files

All directories and files of a system, and what reading or writing a file yields. A path
leads down from the root if it begins there, and from the working directory otherwise. The
system may refuse access to a place, whatever stands there.

## Main definitions

- `FileFault` — why a file cannot be read or written
- `FileTree` — directories and the contents of files
- `FileTree.resolve` — the place that a path leads to
- `FileTree.read`, `FileTree.write` — what reading or writing a file yields
-/

namespace StreamTypes

/-- Why a file cannot be read or written. -/
inductive FileFault where
  | missing
  | notDirectory
  | isDirectory
  | nameTooLong
  /-- The path holds the character that ends texts inside the system. -/
  | nulInPath
  /-- Anything else, with a number and a text from the system. -/
  | other (code : Nat) (reason : String)
  deriving DecidableEq, Repr

namespace FileFault

/-- The number of a fault and its name. -/
def reason : FileFault → Nat × String
  | .missing => (2, "No such file or directory")
  | .notDirectory => (20, "Not a directory")
  | .isDirectory => (21, "Is a directory")
  | .nameTooLong => (36, "File name too long")
  | .nulInPath => (22, "Invalid argument")
  | .other code reason => (code, reason)

/-- The fault with a number and a text from the system. -/
def ofCode (code : Nat) (reason : String) : FileFault :=
  match code with
  | 2 => .missing
  | 20 => .notDirectory
  | 21 => .isDirectory
  | 36 => .nameTooLong
  | _ => .other code reason

/-- What is wrong with the file at a path. -/
def message (fault : FileFault) (path : Path) : String :=
  "[Errno " ++ Nat.repr fault.reason.1 ++ "] " ++ fault.reason.2 ++ ": " ++ Text.quoted path.text

end FileFault

/-- What stands at a place. -/
inductive FileEntry where
  | directory
  | file (bytes : List UInt8)
  deriving DecidableEq, Repr

/-- The directories and files of a system. A place is the row of names that leads to it from
the root. -/
structure FileTree where
  /-- The places and what stands there. -/
  entries : List (List String × FileEntry)
  /-- The working directory. -/
  home : List String := []
  /-- The places to which access is refused, with the number and the text of the fault. -/
  refused : List (List String × Nat × String) := []
  deriving DecidableEq, Repr

namespace FileTree

/-- What stands at a place. The root is the place without names. -/
def get? (t : FileTree) (place : List String) : Option FileEntry :=
  if place.isEmpty then some .directory
  else (t.entries.find? fun entry => entry.1 = place).map Prod.snd

/-- Why access to a place is refused, if it is. -/
def refusal? (t : FileTree) (place : List String) : Option FileFault :=
  (t.refused.find? fun entry => entry.1 = place).map fun entry => .ofCode entry.2.1 entry.2.2

/-- A tree with a file at a place. -/
def put (t : FileTree) (place : List String) (bytes : List UInt8) : FileTree :=
  if t.entries.any fun entry => entry.1 = place then
    { t with
      entries := t.entries.map fun entry =>
        if entry.1 = place then (place, .file bytes) else entry }
  else { t with entries := t.entries ++ [(place, .file bytes)] }

/-- The number of bytes that a name may have. -/
def nameLimit : Nat := 255

/-- The number of bytes that a path may have. -/
def pathLimit : Nat := 4095

/-- Where names lead from a place. The place need not hold anything. -/
def resolveNames (t : FileTree) : List String → List String → Except FileFault (List String)
  | place, [] => .ok place
  | place, name :: names =>
    match t.get? place with
    | none => .error .missing
    | some (.file _) => .error .notDirectory
    | some .directory =>
      -- Only a directory leads back to the one that holds it, and the root leads to itself.
      if name = ".." then t.resolveNames place.dropLast names
      else if nameLimit < name.utf8ByteSize then .error .nameTooLong
      else t.resolveNames (place ++ [name]) names

/-- The place that a path leads to. -/
def resolve (t : FileTree) (path : Path) : Except FileFault (List String) :=
  if path.text.toList.contains '\x00' then .error .nulInPath
  else if pathLimit < path.text.utf8ByteSize then .error .nameTooLong
  else t.resolveNames (if path.root = "" then t.home else []) path.names

/-- The contents of the file at a path. -/
def read (t : FileTree) (path : Path) : Except FileFault (List UInt8) :=
  match t.resolve path with
  | .error fault => .error fault
  | .ok place =>
    match t.refusal? place, t.get? place with
    | some fault, _ => .error fault
    | none, none => .error .missing
    | none, some .directory => .error .isDirectory
    | none, some (.file bytes) => .ok bytes

/-- Whether there is a file at a path, which need not be readable. -/
def isFile (t : FileTree) (path : Path) : Bool :=
  match t.resolve path with
  | .error _ => false
  | .ok place =>
    match t.get? place with
    | some (.file _) => true
    | _ => false

/-- The tree after a file is written, whose directory must be there. -/
def write (t : FileTree) (path : Path) (bytes : List UInt8) : Except FileFault FileTree :=
  match t.resolve path with
  | .error fault => .error fault
  | .ok place =>
    match t.refusal? place, t.get? place with
    | some fault, _ => .error fault
    | none, some .directory => .error .isDirectory
    | none, _ => .ok (t.put place bytes)

end FileTree

end StreamTypes
