/-!
# Parsing expressions

The expressions from which the grammars are built, as data. An expression of
type `Parser ν ρ α` reads a piece of text and yields an `α`; on the way it may
store nodes of type `ν`, and it may refer to the rules that `ρ` names. Choice is
ordered: a later alternative is tried only when the earlier ones do not match.

## Main definitions

- `Parser` — parsing expressions
- `Parser.seq`, `Parser.choice` — sequences and choices of any length
- `Parser.delimited`, `Parser.form`, `Parser.commaList` — the shapes that type
  expressions are made of
-/

namespace StreamTypes.Peg

/-- Parsing expressions that yield an `α`, store nodes of type `ν` and refer to
rules named by `ρ`. -/
inductive Parser (ν : Type) (ρ : Type → Type) : Type → Type 1 where
  | pure {α : Type} (value : α) : Parser ν ρ α
  /-- Matches nothing, and does not say what it expected. -/
  | fail {α : Type} : Parser ν ρ α
  | literal (text : String) : Parser ν ρ String
  /-- Matches the longest run of ASCII digits, if it has at least one digit and
  not more than a numeral may have. -/
  | unsigned : Parser ν ρ Nat
  /-- Matches the longest run of spaces and tabs, which may be empty. -/
  | blanks : Parser ν ρ String
  | endOfInput : Parser ν ρ Unit
  /-- Matches two expressions one after the other. -/
  | both {α β : Type} (first : Parser ν ρ α) (second : Parser ν ρ β) : Parser ν ρ (α × β)
  /-- Matches the first expression or, if that does not match, the second one. -/
  | orElse {α : Type} (first second : Parser ν ρ α) : Parser ν ρ α
  /-- Matches the expression or, if that does not match, the empty text. -/
  | opt {α : Type} (body : Parser ν ρ α) : Parser ν ρ (Option α)
  /-- Matches one or more items with a separator between each two. -/
  | sepBy1 {α β : Type} (item : Parser ν ρ α) (separator : Parser ν ρ β) : Parser ν ρ (α × List α)
  /-- Matches the expression and changes its value. -/
  | map {α β : Type} (f : α → β) (body : Parser ν ρ α) : Parser ν ρ β
  /-- Matches the expression one level deeper, if the depth bound allows it. -/
  | nested {α : Type} (body : Parser ν ρ α) : Parser ν ρ α
  /-- Matches the expression, stores the node built from its value, and yields
  the index of that node. -/
  | alloc {α : Type} (build : α → ν) (body : Parser ν ρ α) : Parser ν ρ Nat
  | ref {α : Type} (rule : ρ α) : Parser ν ρ α

/-- What each rule stands for. -/
abbrev Rules (ν : Type) (ρ : Type → Type) : Type 1 :=
  ∀ {α : Type}, ρ α → Parser ν ρ α

namespace Parser

variable {ν : Type} {ρ : Type → Type} {α β γ : Type}

/-- All expressions of a list, one after the other. -/
def seq : List (Parser ν ρ α) → Parser ν ρ (List α)
  | [] => .pure []
  | p :: ps => .map (fun v => v.1 :: v.2) (.both p (seq ps))

/-- The first expression of a list that matches. -/
def choice : List (Parser ν ρ α) → Parser ν ρ α
  | [] => .fail
  | p :: ps => .orElse p (choice ps)

/-- Two expressions in a row, of which the second one gives the value. -/
def preceded (first : Parser ν ρ α) (second : Parser ν ρ β) : Parser ν ρ β :=
  .map Prod.snd (.both first second)

/-- Two expressions in a row, of which the first one gives the value. -/
def terminated (first : Parser ν ρ α) (second : Parser ν ρ β) : Parser ν ρ α :=
  .map Prod.fst (.both first second)

/-- Three expressions in a row, of which the middle one gives the value. -/
def delimited (start : Parser ν ρ α) (inner : Parser ν ρ β) (stop : Parser ν ρ γ) :
    Parser ν ρ β :=
  .map (fun v => v.2.1) (.both start (.both inner stop))

/-- An expression and the spaces and tabs that follow it. -/
def thenBlanks (body : Parser ν ρ α) : Parser ν ρ α :=
  body.terminated .blanks

/-- A comma and the spaces and tabs that follow it. -/
def comma : Parser ν ρ String :=
  thenBlanks (.literal ",")

/-- One or more items separated by commas. -/
def commaList (item : Parser ν ρ α) : Parser ν ρ (α × List α) :=
  .sepBy1 item comma

/-- A keyword and an expression in angle brackets. -/
def form (keyword : String) (inner : Parser ν ρ α) : Parser ν ρ α :=
  .preceded (.literal keyword) (.delimited (.literal "<") inner (.literal ">"))

end Parser

end StreamTypes.Peg
