import StreamTypes.Yaml.Content
import StreamTypes.Yaml.Value

/-!
# Loading YAML documents

The value of a document as a tree. A document may hold itself, so that its tree has no
end; what is wanted of it is given by the number of collections inside each other, and
collections further inside are shown as empty ones.

## Main definitions

- `Contents.value` — the value of a node
- `Value.ofText?` — the value of a text
- `load` — the loader for configurations
-/

namespace StreamTypes.Yaml

namespace Contents

/-- The content of a node; one that cannot be reached stands for nothing. -/
def content (c : Contents) (number : Nat) : Content :=
  (c.table.getD number none).getD (.scalar .null)

/-- The value of a node with a number of levels of collections. -/
def value (c : Contents) : Nat → Nat → Value
  | 0, number =>
    match c.content number with
    | .scalar value => .scalar value
    | .sequence _ | .pairs _ => .sequence []
    | .mapping _ => .mapping []
    | .set _ => .set []
  | levels + 1, number =>
    let part := c.value levels
    match c.content number with
    | .scalar value => .scalar value
    | .sequence items => .sequence (items.map part)
    | .pairs entries => .sequence (entries.map fun (k, v) => .sequence [part k, part v])
    | .mapping entries => .mapping (entries.map fun (k, v) => (k, part v))
    | .set members => .set members

end Contents

/-- The value of a text with a number of levels of collections; an empty text is
nothing. -/
def Value.ofText? (levels : Nat) (text : String) : Except Failure Value := do
  match ← Document.ofTokens? (.ofText text) with
  | none => return .scalar .null
  | some document =>
    let contents ← document.contents?
    return contents.value levels contents.root

/-- Why there is no value. Of a text that is not YAML no more than this is said. -/
def Failure.refusal : Failure → Refusal
  | .malformed => .notYaml "not a document of known types"
  | .value fault => .fault fault

/-- The number of mappings inside each other in a configuration. -/
def levels : Nat := 2

/-- The loader for configurations. -/
def load : Loader := fun text =>
  (Value.ofText? levels text).mapError Failure.refusal

end StreamTypes.Yaml
