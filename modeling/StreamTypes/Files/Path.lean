/-!
# Paths

A path is a row of names, which may begin at the root. Neither empty names nor
single dots belong to it; double dots do, because they lead back from wherever the
name before them leads.

## Main definitions

- `Path` — the paths
- `Path.ofString`, `Path.text` — reading and writing them
-/

namespace StreamTypes

/-- A path. -/
structure Path where
  /-- What stands before the names: one or two slashes, or nothing. -/
  root : String
  names : List String
  deriving DecidableEq, Repr

namespace Path

/-- What a path begins with: exactly two slashes stay as they are, and any other number
of them stands for one. -/
def rootOf (cs : List Char) : String :=
  match (cs.takeWhile (· = '/')).length with
  | 0 => ""
  | 2 => "//"
  | _ => "/"

/-- The parts of a text between slashes. -/
def parts (cs : List Char) : List (List Char) :=
  cs.splitOn '/'

/-- The path that a text stands for. -/
def ofString (s : String) : Path :=
  ⟨rootOf s.toList,
    ((parts s.toList).map String.ofList).filter fun name => name ≠ "" && name ≠ "."⟩

/-- The text of a path. -/
def text (p : Path) : String :=
  if p.root = "" && p.names.isEmpty then "."
  else p.root ++ String.intercalate "/" p.names

/-- The last name of a path. -/
def name (p : Path) : String :=
  p.names.getLastD ""

/-- The path of something in a directory. -/
def child (p : Path) (name : String) : Path :=
  ⟨p.root, p.names ++ [name]⟩

end Path

end StreamTypes
