import StreamTypes.Yaml.Failure
import StreamTypes.Yaml.Scalar

/-!
# The values of YAML texts

The value of a text is a tree of sequences and mappings, in which the keys are scalars. Which
value a text has is not said here: that is asked of a loader, which also says why a text has
none.

## Main definitions

- `Value` — the values
- `Refusal` — why there is no value
- `Loader` — loads the values of texts
-/

namespace StreamTypes.Yaml

/-- The value of a document or of a part of it. -/
inductive Value where
  | scalar (value : Scalar)
  | sequence (items : List Value)
  | mapping (entries : List (Scalar × Value))
  | set (members : List Scalar)
  deriving Repr

/-- Why there is no value. -/
inductive Refusal where
  /-- The text is not YAML, for a reason in words. -/
  | notYaml (reason : String)
  /-- The loader is stopped by a fault of another kind. -/
  | fault (fault : ValueFault)
  deriving DecidableEq, Repr

/-- Loads the values of texts. -/
abbrev Loader : Type :=
  String → Except Refusal Value

end StreamTypes.Yaml
