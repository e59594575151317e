import StreamTypes.River.Node

/-!
# River types as terms

The type that a tree of nodes stands for, with its members nested inside one
another instead of referring to each other. Two trees that list the same forms in
another order stand for the same term.

## Main definitions

- `Term` — River types
- `Term.text` — the canonical way to write a type
- `Term.depth` — the number of forms on the longest branch
-/

namespace StreamTypes.River

/-- A River type. -/
inductive Term where
  | bits (width : Nat)
  | wrap (wrapper : Wrapper) (child : Term) (params : Params)
  | collect (collection : Collection) (first : Term) (rest : List Term)
  deriving Repr, BEq, Inhabited

namespace Term

/-- One form over terms that are already complete. -/
def ofNode : Node Term → Term
  | .bits width => .bits width
  | .wrap wrapper child params => .wrap wrapper child params
  | .collect collection first rest => .collect collection first rest

/-- The parameters of a form as they follow its child. -/
def paramsSuffix (params : Params) : String :=
  let text := params.text
  if text.isEmpty then "" else ", " ++ text

mutual

/-- The canonical way to write a type. -/
def text : Term → String
  | .bits width => "Bits<" ++ Nat.repr width ++ ">"
  | .wrap wrapper child params =>
    wrapper.keyword ++ "<" ++ text child ++ paramsSuffix params ++ ">"
  | .collect collection first rest =>
    collection.keyword ++ "<" ++ text first ++ textOfRest rest ++ ">"

/-- The members of a collecting form after the first one. -/
def textOfRest : List Term → String
  | [] => ""
  | term :: terms => ", " ++ text term ++ textOfRest terms

end

mutual

/-- The number of forms on the longest branch of a type. -/
def depth : Term → Nat
  | .bits _ => 1
  | .wrap _ child _ => 1 + depth child
  | .collect _ first rest => 1 + max (depth first) (depthOfRest rest)

/-- The number of forms on the longest branch of any type in a list. -/
def depthOfRest : List Term → Nat
  | [] => 0
  | term :: terms => max (depth term) (depthOfRest terms)

end

end Term

end StreamTypes.River
