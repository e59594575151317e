import StreamTypes.Yaml.Value

/-!
# What is relied on of a loader

Nothing is said about which value a text has. A loader either finds a value, in which no mapping has
two keys that are the same, or it finds that the text is not YAML.

## Main definitions

- `DistinctKeys` — no two keys are the same
- `Value.Throughout` — all mappings inside a value have a property
- `Loader.Answers` — what is relied on of a loader for a text
-/

namespace StreamTypes.Yaml

/-- No two keys are the same. -/
def DistinctKeys {α : Type} (entries : List (Scalar × α)) : Prop :=
  entries.Pairwise fun x y => x.1.sameKey y.1 = false

/-- All mappings inside a value have a property. -/
inductive Value.Throughout (P : List (Scalar × Value) → Prop) : Value → Prop
  | scalar (value : Scalar) : Throughout P (.scalar value)
  | sequence {items : List Value} (hitems : ∀ item ∈ items, item.Throughout P) :
    Throughout P (.sequence items)
  | mapping {entries : List (Scalar × Value)} (h : P entries)
    (hvalues : ∀ entry ∈ entries, entry.2.Throughout P) : Throughout P (.mapping entries)
  | set (members : List Scalar) : Throughout P (.set members)

theorem Value.throughout_mapping_iff {P : List (Scalar × Value) → Prop}
    {entries : List (Scalar × Value)} : (Value.mapping entries).Throughout P ↔
      P entries ∧ ∀ entry ∈ entries, entry.2.Throughout P := by
  constructor
  · intro h
    cases h with
    | mapping hentries hvalues => exact ⟨hentries, hvalues⟩
  · exact fun h => .mapping h.1 h.2

/-- A loader finds a value for a text, or that the text is not YAML. -/
structure Loader.Answers (load : Loader) (text : String) : Prop where
  /-- No mapping in the value has two keys that are the same. -/
  distinct : ∀ v, load text = .ok v → v.Throughout DistinctKeys
  /-- The loader is not stopped by another fault. -/
  reasoned : ∀ fault, load text ≠ .error (.fault fault)

end StreamTypes.Yaml
