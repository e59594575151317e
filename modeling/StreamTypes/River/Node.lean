import StreamTypes.River.Kind
import StreamTypes.River.Params

/-!
# Nodes of a River type

One form of a River type, with a reference to each of its children. References
are integers while they are still unchecked, and indices into a list of nodes
afterwards; a node whose references are replaced by results is what one step of a
recursion over a type sees.

## Main definitions

- `Node` — a form whose children are given by references of type `ι`
- `Node.children` — the references in order
- `Node.map` — the same form with other references
- `Node.bits?`, `Node.collect?` — nodes from unchecked data
-/

namespace StreamTypes.River

/-- A form of a River type with references of type `ι` to its children. -/
inductive Node (ι : Type) where
  | bits (width : Nat)
  | wrap (wrapper : Wrapper) (child : ι) (params : Params)
  | collect (collection : Collection) (first : ι) (rest : List ι)
  deriving DecidableEq, Repr

namespace Node

variable {ι κ : Type}

/-- The kind of a node. -/
def kind : Node ι → Kind
  | .bits _ => .bits
  | .wrap wrapper _ _ => .wrap wrapper
  | .collect collection _ _ => .collect collection

/-- The references to the children, in order. -/
def children : Node ι → List ι
  | .bits _ => []
  | .wrap _ child _ => [child]
  | .collect _ first rest => first :: rest

/-- The same form with its references replaced. -/
def map (f : ι → κ) : Node ι → Node κ
  | .bits width => .bits width
  | .wrap wrapper child params => .wrap wrapper (f child) params
  | .collect collection first rest => .collect collection (f first) (rest.map f)

@[simp] theorem kind_map (f : ι → κ) (node : Node ι) : (node.map f).kind = node.kind := by
  cases node <;> rfl

@[simp] theorem children_map (f : ι → κ) (node : Node ι) :
    (node.map f).children = node.children.map f := by
  cases node <;> rfl

/-- A leaf from an unchecked width. -/
def bits? (width : Int) : Except ModelError (Node ι) :=
  match numberFault "width" width with
  | [] => .ok (.bits width.toNat)
  | faults => .error ⟨.bits, faults⟩

/-- A collecting node from an unchecked list of references. -/
def collect? (collection : Collection) : List ι → Except ModelError (Node ι)
  | first :: rest => .ok (.collect collection first rest)
  | [] =>
    let model : Model := match collection with
      | .group => .group
      | .union => .union
    .error ⟨model, [("children", .noMembers)]⟩

/-- A node as a JSON object, given how its references are written. -/
def toJson (reference : ι → Json) (node : Node ι) : Json :=
  let kind := ("kind", .str node.kind.keyword)
  match node with
  | .bits width => .obj [kind, ("width", .nat width)]
  | .wrap _ child params => .obj [kind, ("child", reference child), ("params", params.toJson)]
  | .collect _ first rest => .obj [kind, ("children", .arr ((first :: rest).map reference))]

end Node

end StreamTypes.River
