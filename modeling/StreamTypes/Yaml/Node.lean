import StreamTypes.Yaml.Resolver
import StreamTypes.Yaml.Token

/-!
# The nodes of a YAML document

A document is a graph: what a collection holds is given by the numbers of nodes, and an
alias leads to the node that its anchor marks, which may be the collection around it.

## Main definitions

- `Node` — scalars, sequences and mappings
- `Document` — nodes with their numbers, and the one at the top
- `Document.ofTokens?` — the one document in a row of tokens
-/

namespace StreamTypes.Yaml

/-- A node of a document, in which other nodes are given by their numbers. -/
inductive Node where
  | scalar (tag : Tag) (text : WideText)
  | sequence (tag : Tag) (items : List Nat)
  | mapping (tag : Tag) (entries : List (Nat × Nat))
  deriving Repr

namespace Node

/-- The type of a node. -/
def tag : Node → Tag
  | .scalar tag _ => tag
  | .sequence tag _ => tag
  | .mapping tag _ => tag

/-- A node where nothing is written. -/
def empty : Node :=
  .scalar .null []

end Node

/-- The nodes of a document. -/
structure Document where
  /-- The nodes; the number of a node is its place. -/
  nodes : Array Node
  root : Nat
  deriving Repr

/-- The node with a number, or an empty one if no node has it. -/
def Document.node (d : Document) (number : Nat) : Node :=
  d.nodes.getD number .empty

/-- What is known while nodes are put together. -/
structure Builder where
  tokens : List Token
  /-- What is wrong behind the tokens. -/
  fault : Failure
  nodes : Array Node := #[]
  anchors : List (String × Nat) := []
  /-- What the handles of tags stand for. -/
  handles : List (String × String) := []

/-- Puts part of a document together, or fails. -/
abbrev Composer : Type → Type :=
  StateT Builder (Except Failure)

namespace Composer

/-- The text is not a document. -/
def fail {α : Type} : Composer α :=
  throw .malformed

/-- The next token. -/
def peek : Composer Token := do
  let s ← get
  match s.tokens with
  | token :: _ => return token
  | [] => throw s.fault

/-- Reads the next token. -/
def advance : Composer Unit :=
  modify fun s => { s with tokens := s.tokens.tail }

/-- Whether the next token is one of a list. -/
def isNext (tokens : List Token) : Composer Bool := do
  return tokens.contains (← peek)

/-- Reads a token that must come next. -/
def expect (token : Token) : Composer Unit := do
  if (← peek) ≠ token then fail
  advance

/-- The node that an alias stands for. -/
def anchored (name : String) : Composer Nat := do
  match (← get).anchors.find? fun entry => entry.1 = name with
  | some (_, number) => return number
  | none => fail

/-- Adds a node, and its anchor if there is one, and yields its number. -/
def add (anchor : Option String) (node : Node) : Composer Nat := do
  let number := (← get).nodes.size
  modify fun s =>
    { s with
      nodes := s.nodes.push node
      anchors := (anchor.map fun name => (name, number)).toList ++ s.anchors }
  return number

/-- The name of a type, with its handle replaced. -/
def tagText (name : TagName) : Composer String := do
  match name.handle with
  | none => return name.suffix
  | some handle =>
    match (← get).handles.find? fun entry => entry.1 = handle with
    | some (_, start) => return start ++ name.suffix
    | none => fail

/-- The name of an anchor, if the next token is one. -/
def anchor? : Composer (Option String) := do
  match ← peek with
  | .anchor name =>
    advance
    return some name
  | _ => return none

/-- A type, if the next token is one. -/
def tagName? : Composer (Option TagName) := do
  match ← peek with
  | .tag name =>
    advance
    return some name
  | _ => return none

/-- An anchor and a type in either order, each of which may be missing. -/
def properties : Composer (Option String × Option String) := do
  let (anchor, tag) ← match ← anchor? with
    | some anchor => pure (some anchor, ← tagName?)
    | none =>
      match ← tagName? with
      | some tag => pure (← anchor?, some tag)
      | none => pure (none, none)
  return (anchor, ← tag.mapM tagText)

/-- The type of a collection. -/
def collectionTag (standard : Tag) (written : Option String) : Tag :=
  match written with
  | none => standard
  | some name => if name = "!" then standard else Tag.ofName name

/-- The type of a scalar. -/
def scalarTag (written : Option String) (text : WideText) (plain : Bool) : Tag :=
  match written with
  | none => if plain then plainTag text else .str
  | some name => if name = "!" then plainTag text else Tag.ofName name

/-- A collection, whose anchor is known inside it, too. -/
def collection {α : Type} (anchor : Option String) (build : List α → Node)
    (contents : Composer (List α)) : Composer Nat := do
  advance
  let number ← add anchor (build [])
  let parts ← contents
  modify fun s => { s with nodes := s.nodes.setIfInBounds number (build parts) }
  return number

/-- The tokens that end the value or the key of an entry of a block. -/
def blockStops : List Token :=
  [.key, .value, .blockEnd]

/-- The node that is read next, or an empty one before some tokens. -/
def unlessNext (stops : List Token) (node : Composer Nat) : Composer Nat := do
  if ← isNext stops then add none .empty else node

/-- The value of an entry: nothing, unless a colon stands before it. -/
def valueBefore (stops : List Token) (node : Composer Nat) : Composer Nat := do
  if ← isNext [.value] then
    advance
    unlessNext stops node
  else add none .empty

mutual

/-- A node. Only in a block may it be a block, and only after a key may it be a list
without indentation. -/
def node (block unindented : Bool) : Nat → Composer Nat
  | 0 => fail
  | fuel + 1 => do
    if let .alias name ← peek then
      advance
      return ← anchored name
    let (anchor, written) ← properties
    let token ← peek
    -- No anchor may stand twice in a document.
    if (← get).anchors.any fun entry => some entry.1 = anchor then fail
    let sequence := Node.sequence (collectionTag .seq written)
    let mapping := Node.mapping (collectionTag .map written)
    match token with
    | .scalar text plain =>
      advance
      add anchor (.scalar (scalarTag written text plain) text)
    | .flowSequenceStart => collection anchor sequence (flowItems true fuel)
    | .flowMappingStart => collection anchor mapping (flowEntries true fuel)
    | token =>
      if unindented && token = .blockEntry then
        collection anchor sequence (unindentedItems fuel)
      else if block && token = .blockSequenceStart then
        collection anchor sequence (blockItems fuel)
      else if block && token = .blockMappingStart then
        collection anchor mapping (blockEntries fuel)
      -- Behind an anchor or a type there may be nothing at all.
      else if anchor.isSome || written.isSome then
        add anchor (.scalar (scalarTag written [] true) [])
      else fail

/-- The entries of a block sequence. -/
def blockItems : Nat → Composer (List Nat)
  | 0 => fail
  | fuel + 1 => do
    if ← isNext [.blockEntry] then
      advance
      let item ← unlessNext [.blockEntry, .blockEnd] (node true false fuel)
      return item :: (← blockItems fuel)
    else
      expect .blockEnd
      return []

/-- The entries of a sequence without indentation, the first dash of which is read. -/
def unindentedItems : Nat → Composer (List Nat)
  | 0 => fail
  | fuel + 1 => do
    let item ← unlessNext (.blockEntry :: blockStops) (node true false fuel)
    if ← isNext [.blockEntry] then
      advance
      return item :: (← unindentedItems fuel)
    else return [item]

/-- The entries of a block mapping. -/
def blockEntries : Nat → Composer (List (Nat × Nat))
  | 0 => fail
  | fuel + 1 => do
    if ← isNext [.key] then
      advance
      let key ← unlessNext blockStops (node true true fuel)
      let value ← valueBefore blockStops (node true true fuel)
      return (key, value) :: (← blockEntries fuel)
    else
      expect .blockEnd
      return []

/-- The entries of a sequence in brackets, each but the first after a comma. An entry
with a colon is a mapping of its own. -/
def flowItems (first : Bool) : Nat → Composer (List Nat)
  | 0 => fail
  | fuel + 1 => do
    if ← isNext [.flowSequenceEnd] then
      advance
      return []
    if !first then expect .flowEntry
    let stops := [Token.flowEntry, Token.flowSequenceEnd]
    if ← isNext [.key] then
      let item ← collection none (.mapping .map) do
        let key ← unlessNext (.value :: stops) (node false false fuel)
        return [(key, ← valueBefore stops (node false false fuel))]
      return item :: (← flowItems false fuel)
    else if ← isNext [.flowSequenceEnd] then
      advance
      return []
    else
      let item ← node false false fuel
      return item :: (← flowItems false fuel)

/-- The entries of a mapping in braces, each but the first after a comma. -/
def flowEntries (first : Bool) : Nat → Composer (List (Nat × Nat))
  | 0 => fail
  | fuel + 1 => do
    if ← isNext [.flowMappingEnd] then
      advance
      return []
    if !first then expect .flowEntry
    let stops := [Token.flowEntry, Token.flowMappingEnd]
    if ← isNext [.key] then
      advance
      let key ← unlessNext (.value :: stops) (node false false fuel)
      let value ← valueBefore stops (node false false fuel)
      return (key, value) :: (← flowEntries false fuel)
    else if ← isNext [.flowMappingEnd] then
      advance
      return []
    else
      let key ← node false false fuel
      let value ← add none .empty
      return (key, value) :: (← flowEntries false fuel)

end

/-- What handles stand for without directives. -/
def standardHandles : List (String × String) :=
  [("!", "!"), ("!!", commonTags)]

/-- The directives before a document: at most one version, which is 1 followed by
anything, and at most one meaning for each handle. -/
def directives : Nat → Bool → List (String × String) → Composer (List (String × String))
  | 0, _, _ => fail
  | fuel + 1, versioned, handles => do
    match ← peek with
    | .directive value =>
      advance
      match value with
      | .version major =>
        if versioned || major ≠ 1 then fail
        directives fuel true handles
      | .handle handle start =>
        if handles.any fun entry => entry.1 = handle then fail
        directives fuel versioned ((handle, start) :: handles)
      | .reserved => directives fuel versioned handles
    | _ => return handles

/-- The end of a document: nothing may follow but marks for the end. The directives of
another document are looked at before it is found to be there. -/
def finish : Nat → Composer Unit
  | 0 => fail
  | fuel + 1 => do
    match ← peek with
    | .streamEnd => pure ()
    | .documentEnd =>
      advance
      finish fuel
    | _ =>
      discard <| directives fuel false []
      fail

/-- Whether a document ends here, or the next one begins. -/
def atEnd : Composer Bool := do
  match ← peek with
  | .directive _ => return true
  | .documentStart | .documentEnd | .streamEnd => return true
  | _ => return false

/-- The number of the node at the top of a document, or nothing if there is no
document. -/
def document (fuel : Nat) : Composer (Option Nat) := do
  let explicit : Bool ← match ← peek with
    | .streamEnd => return none
    | .directive _ | .documentStart => pure true
    | _ => pure false
  let written ← if explicit then directives fuel false [] else pure []
  modify fun s => { s with handles := written ++ standardHandles }
  if explicit then expect .documentStart
  let root ←
    if explicit && (← atEnd) then add none .empty
    else node true false fuel
  finish fuel
  return root

end Composer

/-- The one document in a row of tokens, or nothing if there is none. -/
def Document.ofTokens? (row : TokenRow) : Except Failure (Option Document) := do
  let fuel := 4 * row.tokens.length + 16
  let (root, s) ← (Composer.document fuel).run ⟨row.tokens, row.fault, #[], [], []⟩
  return root.map fun number => ⟨s.nodes, number⟩

end StreamTypes.Yaml
