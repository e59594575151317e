import StreamTypes.Yaml.Node

/-!
# What the nodes of a YAML document stand for

Each node that can be reached from the top of a document gets a content. The content of a
scalar is known as soon as the node is reached, but that of a collection is made later, in
the order in which collections are reached, so that a collection may hold itself.

The keys of mappings are scalars; of equal keys, the first is kept with the last value. An
entry with the key `<<` stands for the entries of other mappings, over which all others
take precedence.

## Main definitions

- `Content` — what a node stands for
- `Contents` — what all nodes of a document stand for
- `Document.contents?` — the contents of a document, if all its types are known
-/

namespace StreamTypes.Yaml

/-- What a node stands for, where other nodes are given by their numbers. -/
inductive Content where
  | scalar (value : Scalar)
  | sequence (items : List Nat)
  | mapping (entries : List (Scalar × Nat))
  | set (members : List Scalar)
  | pairs (entries : List (Nat × Nat))
  deriving Repr

/-- Entries with one more behind them, which replaces the value of an equal key. -/
def putEntry {α : Type} (entries : List (Scalar × α)) (key : Scalar) (value : α) :
    List (Scalar × α) :=
  match entries with
  | [] => [(key, value)]
  | (k, v) :: rest =>
    if k.sameKey key then (k, value) :: rest else (k, v) :: putEntry rest key value

/-- How far the contents of a document are made. -/
structure Draft where
  /-- The nodes, in which some entries may be merged already. -/
  nodes : Array Node
  /-- The contents so far; those of collections may be yet to come. -/
  contents : Array (Option Content)
  /-- The number of entries with the key `<<` in the document. -/
  merges : Nat
  /-- The collections whose contents are yet to come, the latest first. -/
  found : List Nat := []

/-- The node with a number, or an empty one if no node has it. -/
def Draft.node (s : Draft) (number : Nat) : Node :=
  s.nodes.getD number .empty

/-- The content of a node, if it is reached. -/
def Draft.content? (s : Draft) (number : Nat) : Option Content :=
  s.contents.getD number none

/-- Whether a node has a type. -/
def Draft.isTagged (s : Draft) (tag : Tag) (number : Nat) : Bool :=
  (s.node number).tag = tag

/-- The text of a node: its own one, or in a mapping the text of the default value. -/
def Draft.text? (s : Draft) : Nat → Nat → Except Failure WideText
  | 0, _ => throw (.value .endless)
  | fuel + 1, number =>
    match s.node number with
    | .scalar _ text => return text
    | .sequence _ _ => throw .malformed
    | .mapping _ entries =>
      match entries.find? fun entry => s.isTagged .value entry.1 with
      | some (_, value) => s.text? fuel value
      | none => throw .malformed

/-- The value of a node with the type of a scalar. -/
def Draft.scalar? (s : Draft) (number : Nat) : Except Failure Scalar := do
  let node := s.node number
  let text ← s.text? (s.nodes.size + 1) number
  match node.tag, node with
  | .timestamp, .mapping _ _ => throw (.value .momentOfCollection)
  | tag, _ => Scalar.ofText? tag number text

/-- Makes contents, or fails. -/
abbrev Maker : Type → Type :=
  StateT Draft (Except Failure)

namespace Maker

/-- The document has no value. -/
def fail {α : Type} : Maker α :=
  throw .malformed

/-- Sets the content of a node. -/
def put (number : Nat) (content : Content) : Maker Unit :=
  modify fun s => { s with contents := s.contents.setIfInBounds number (some content) }

/-- Reaches a collection, which is empty for now. -/
def announce (number : Nat) (content : Content) : Maker Unit := do
  put number content
  modify fun s => { s with found := number :: s.found }

/-- Reaches a node. -/
def reach (number : Nat) : Maker Unit := do
  let s ← get
  if (s.content? number).isNone then
    match (s.node number).tag with
    | .seq => announce number (.sequence [])
    | .map => announce number (.mapping [])
    | .set => announce number (.set [])
    | .orderedMap | .pairs => announce number (.pairs [])
    | .merge | .value | .unknown _ => fail
    | .null | .bool | .int | .float | .timestamp | .str | .binary =>
      put number (.scalar (← s.scalar? number))

/-- The entries of a node. -/
def entriesOf (number : Nat) : Maker (List (Nat × Nat)) := do
  match (← get).node number with
  | .mapping _ entries => return entries
  | _ => fail

/-- Changes the entries of a node. -/
def setEntries (number : Nat) (entries : List (Nat × Nat)) : Maker Unit :=
  modify fun s =>
    let node := Node.mapping (s.node number).tag entries
    { s with nodes := s.nodes.setIfInBounds number node }

/-- Turns a key for a default value into an ordinary text. -/
def retag (number : Nat) : Maker Unit :=
  modify fun s =>
    match s.node number with
    | .scalar .value text => { s with nodes := s.nodes.setIfInBounds number (.scalar .str text) }
    | .sequence .value items =>
      { s with nodes := s.nodes.setIfInBounds number (.sequence .str items) }
    | .mapping .value entries =>
      { s with nodes := s.nodes.setIfInBounds number (.mapping .str entries) }
    | _ => s

/-- Puts the entries that are merged into a mapping in front of the others, and yields all
of them. -/
def flattenWith (merged : Nat → Maker (List (Nat × Nat))) (number : Nat) :
    Maker (List (Nat × Nat)) := do
  (← entriesOf number).forM fun entry => retag entry.1
  let front ← merged number
  let entries := front ++ (← entriesOf number)
  setEntries number entries
  return entries

/-- Takes the entries with the key `<<` out of a mapping, and yields those that they stand
for. A sequence stands for those of all its mappings, the last one first. The bound is the
number of such entries in the document, none of which is looked at twice. -/
def merged : Nat → Nat → Maker (List (Nat × Nat))
  | 0, _ => return []
  | fuel + 1, number => do
    let entries ← entriesOf number
    let s ← get
    match entries.dropWhile fun entry => !s.isTagged .merge entry.1 with
    | [] => return []
    | (_, value) :: rest =>
      setEntries number ((entries.takeWhile fun entry => !s.isTagged .merge entry.1) ++ rest)
      let more ← match s.node value with
        | .mapping _ _ => flattenWith (merged fuel) value
        | .sequence _ items =>
          (·.reverse.flatten) <$> items.mapM (flattenWith (merged fuel))
        | .scalar _ _ => fail
      return more ++ (← merged fuel number)

/-- The entries of a mapping with those that are merged into it. -/
def allEntries (number : Nat) : Maker (List (Nat × Nat)) := do
  flattenWith (merged (← get).merges) number

/-- Reaches the keys and values of entries, and yields the entries of which no two have
equal keys. -/
def reachEntries (made : List (Scalar × Nat)) : List (Nat × Nat) → Maker (List (Scalar × Nat))
  | [] => return made
  | (key, value) :: entries => do
    reach key
    match (← get).content? key with
    | some (.scalar k) =>
      reach value
      reachEntries (putEntry made k value) entries
    | _ => fail

/-- The only entry of a mapping, of which the key and the value are reached. -/
def reachPair (number : Nat) : Maker (Nat × Nat) := do
  match ← entriesOf number with
  | [(key, value)] =>
    reach key
    reach value
    return (key, value)
  | _ => fail

/-- Makes the content of a collection. -/
def fill (number : Nat) : Maker Unit := do
  let node := (← get).node number
  match node.tag, node with
  | .seq, .sequence _ items =>
    items.forM reach
    put number (.sequence items)
  | .map, .mapping _ _ =>
    put number (.mapping (← reachEntries [] (← allEntries number)))
  | .set, .mapping _ _ =>
    put number (.set ((← reachEntries [] (← allEntries number)).map Prod.fst))
  | .orderedMap, .sequence _ items | .pairs, .sequence _ items =>
    put number (.pairs (← items.mapM reachPair))
  | _, _ => fail

/-- Makes the contents of all collections that are reached. The bound is their number, at
most that of all nodes. -/
def fillAll : Nat → Maker Unit
  | 0 => pure ()
  | fuel + 1 => do
    let found := (← get).found
    if !found.isEmpty then
      modify fun s => { s with found := [] }
      found.reverse.forM fill
      fillAll fuel

end Maker

/-- What the nodes of a document stand for. -/
structure Contents where
  /-- The content of each node that can be reached. -/
  table : Array (Option Content)
  root : Nat

/-- The number of entries with the key `<<`. -/
def Document.merges (d : Document) : Nat :=
  d.nodes.foldl (fun n node =>
    match node with
    | .mapping _ entries => n + (entries.filter fun entry => (d.node entry.1).tag = .merge).length
    | _ => n) 0

/-- The contents of a document, if all its types are known. -/
def Document.contents? (d : Document) : Except Failure Contents := do
  let start : Draft := ⟨d.nodes, Array.replicate d.nodes.size none, d.merges, []⟩
  let make : Maker Unit := do
    Maker.reach d.root
    Maker.fillAll (d.nodes.size + 1)
  let ((), s) ← make.run start
  return ⟨s.contents, d.root⟩

end StreamTypes.Yaml
