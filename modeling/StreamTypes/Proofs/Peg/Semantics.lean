import StreamTypes.Proofs.Peg.Position

/-!
# What an expression means

Parsing expressions without a state. An expression is read at a position of the text,
at a nesting depth and with a number of nodes already stored, and the reading ends with
a match, a failure or an excess of depth. Nodes belong to a match only: what an
alternative, an option or the last round of a list has stored before it failed is not
part of any result. A reading also has a journal of the primitives that did not match,
whether or not the failure was recovered from.

## Main definitions

- `Event`, `Note` — what happens on the way, and what a state remembers of it
- `Place`, `Result` — where a reading starts and how it ends
- `Derives`, `Repeats` — the readings of an expression, and of the rounds of a list
-/

namespace StreamTypes.Peg

variable {ν α β : Type} {ρ : Type → Type}

/-! ### Journals -/

/-- What happens on the way and is noted in the state. -/
inductive Event where
  | missed (pos : Nat) (expectation : Expectation)
  | exceeded (pos : Nat)
  deriving DecidableEq, Repr

/-- What a state remembers of the events. -/
structure Note where
  furthest : Nat
  expected : List Expectation
  tooDeepAt : Option Nat

namespace Note

/-- The note after one more event. -/
def add (note : Note) : Event → Note
  | .missed pos e =>
    if note.furthest < pos then { note with furthest := pos, expected := [e] }
    else if note.furthest = pos then { note with expected := note.expected.insert e }
    else note
  | .exceeded pos => { note with tooDeepAt := note.tooDeepAt <|> some pos }

/-- The note after all events of a journal. -/
def addAll (note : Note) (journal : List Event) : Note :=
  journal.foldl add note

theorem addAll_append (note : Note) (journal more : List Event) :
    note.addAll (journal ++ more) = (note.addAll journal).addAll more :=
  List.foldl_append

end Note

/-- What a state remembers of the events so far. -/
def State.note (s : State ν) : Note :=
  ⟨s.furthest, s.expected, s.tooDeepAt⟩

theorem State.note_record (s : State ν) (pos : Nat) (e : Expectation) :
    (s.record pos e).note = s.note.addAll [.missed pos e] := by
  change (s.record pos e).note = s.note.add (.missed pos e)
  unfold State.record
  split
  · next h => exact (if_pos h).symm
  · next hlt =>
    split
    · next heq => exact ((if_neg hlt).trans (if_pos heq)).symm
    · next hne => exact ((if_neg hlt).trans (if_neg hne)).symm

/-! ### Readings -/

/-- Where an expression is read. -/
structure Place where
  /-- The number of nested forms around the position. -/
  depth : Int
  /-- The number of nodes that have been stored. -/
  stored : Nat
  pos : Nat

namespace Place

/-- The place at another position, where some more nodes have been stored. -/
def behind (place : Place) (pos : Nat) (nodes : List ν) : Place :=
  { place with stored := place.stored + nodes.length, pos := pos }

/-- The same place one level deeper. -/
def deeper (place : Place) : Place :=
  { place with depth := place.depth + 1 }

end Place

/-- The place of a run from a state and a position. -/
def State.place (s : State ν) (pos : Nat) : Place :=
  ⟨s.depth, s.arena.size, pos⟩

/-- How a reading ends that does not match. -/
inductive Stop where
  /-- Another alternative may be tried. -/
  | failed
  /-- A form nests deeper than the bound, and nothing else is tried. -/
  | tooDeep
  deriving DecidableEq, Repr

/-- How a reading ends. -/
inductive Result (ν α : Type) where
  /-- The expression matched up to `next`, and stored some nodes. -/
  | matched (value : α) (next : Nat) (nodes : List ν)
  | halted (halt : Stop)

section
variable (input : Input) (rules : Rules ν ρ)

mutual

/-- The readings of an expression at a place: the events on the way and how the reading
ends. -/
inductive Derives : {α : Type} → Parser ν ρ α → Place → List Event → Result ν α → Prop
  | pure {α : Type} {value : α} {l : Place} : Derives (.pure value) l [] (.matched value l.pos [])
  | fail {α : Type} {l : Place} : Derives (.fail (α := α)) l [] (.halted .failed)
  | literal {text : String} {l : Place} :
      l.pos ≤ input.text.size ∧ text.toList <+: input.rest l.pos →
      Derives (.literal text) l [] (.matched text (l.pos + text.toList.length) [])
  | noLiteral {text : String} {l : Place} :
      ¬ (l.pos ≤ input.text.size ∧ text.toList <+: input.rest l.pos) →
      Derives (.literal text) l [.missed l.pos (.literal text)] (.halted .failed)
  | unsigned {digits : List Char} {l : Place} :
      (input.rest l.pos).takeWhile Char.isDigit = digits → digits ≠ [] →
      digits.length ≤ Text.numeralLimit →
      Derives .unsigned l [] (.matched (Text.digitsValue digits) (l.pos + digits.length) [])
  | noUnsigned {l : Place} :
      (input.rest l.pos).takeWhile Char.isDigit = [] →
      Derives .unsigned l [.missed l.pos .unsigned] (.halted .failed)
  | longUnsigned {l : Place} :
      Text.numeralLimit < ((input.rest l.pos).takeWhile Char.isDigit).length →
      Derives .unsigned l [.missed l.pos .shorterUnsigned] (.halted .failed)
  | blanks {gap : List Char} {l : Place} :
      (input.rest l.pos).takeWhile isGap = gap →
      Derives .blanks l [] (.matched (String.ofList gap) (l.pos + gap.length) [])
  | endOfInput {l : Place} :
      l.pos = input.text.size → Derives .endOfInput l [] (.matched () l.pos [])
  | noEnd {l : Place} :
      l.pos ≠ input.text.size →
      Derives .endOfInput l [.missed l.pos .endOfInput] (.halted .failed)
  | both {α β : Type} {p : Parser ν ρ α} {q : Parser ν ρ β} {l : Place} {mid next : Nat}
      {j j' : List Event} {a : α} {b : β} {nodes nodes' : List ν} :
      Derives p l j (.matched a mid nodes) →
      Derives q (l.behind mid nodes) j' (.matched b next nodes') →
      Derives (.both p q) l (j ++ j') (.matched (a, b) next (nodes ++ nodes'))
  | bothFirst {α β : Type} {p : Parser ν ρ α} {q : Parser ν ρ β} {l : Place} {j : List Event}
      {halt : Stop} :
      Derives p l j (.halted halt) → Derives (.both p q) l j (.halted halt)
  | bothSecond {α β : Type} {p : Parser ν ρ α} {q : Parser ν ρ β} {l : Place} {mid : Nat}
      {j j' : List Event} {a : α} {nodes : List ν} {halt : Stop} :
      Derives p l j (.matched a mid nodes) →
      Derives q (l.behind mid nodes) j' (.halted halt) →
      Derives (.both p q) l (j ++ j') (.halted halt)
  | orElse {α : Type} {p q : Parser ν ρ α} {l : Place} {next : Nat} {j : List Event} {a : α}
      {nodes : List ν} :
      Derives p l j (.matched a next nodes) → Derives (.orElse p q) l j (.matched a next nodes)
  | orElseDeep {α : Type} {p q : Parser ν ρ α} {l : Place} {j : List Event} :
      Derives p l j (.halted .tooDeep) → Derives (.orElse p q) l j (.halted .tooDeep)
  /-- The second alternative is read at the place where the first one was read. -/
  | orElseNext {α : Type} {p q : Parser ν ρ α} {l : Place} {j j' : List Event}
      {result : Result ν α} :
      Derives p l j (.halted .failed) → Derives q l j' result →
      Derives (.orElse p q) l (j ++ j') result
  | opt {α : Type} {p : Parser ν ρ α} {l : Place} {next : Nat} {j : List Event} {a : α}
      {nodes : List ν} :
      Derives p l j (.matched a next nodes) → Derives (.opt p) l j (.matched (some a) next nodes)
  | optNone {α : Type} {p : Parser ν ρ α} {l : Place} {j : List Event} :
      Derives p l j (.halted .failed) → Derives (.opt p) l j (.matched none l.pos [])
  | optDeep {α : Type} {p : Parser ν ρ α} {l : Place} {j : List Event} :
      Derives p l j (.halted .tooDeep) → Derives (.opt p) l j (.halted .tooDeep)
  | sepBy1 {α β : Type} {p : Parser ν ρ α} {q : Parser ν ρ β} {l : Place} {mid next : Nat}
      {j j' : List Event} {a : α} {as : List α} {nodes nodes' : List ν} :
      Derives p l j (.matched a mid nodes) →
      Repeats (q.preceded p) (l.behind mid nodes) j' (.matched as next nodes') →
      Derives (.sepBy1 p q) l (j ++ j') (.matched (a, as) next (nodes ++ nodes'))
  | sepBy1First {α β : Type} {p : Parser ν ρ α} {q : Parser ν ρ β} {l : Place} {j : List Event}
      {halt : Stop} :
      Derives p l j (.halted halt) → Derives (.sepBy1 p q) l j (.halted halt)
  | sepBy1Rest {α β : Type} {p : Parser ν ρ α} {q : Parser ν ρ β} {l : Place} {mid : Nat}
      {j j' : List Event} {a : α} {nodes : List ν} {halt : Stop} :
      Derives p l j (.matched a mid nodes) →
      Repeats (q.preceded p) (l.behind mid nodes) j' (.halted halt) →
      Derives (.sepBy1 p q) l (j ++ j') (.halted halt)
  | map {α β : Type} {f : α → β} {p : Parser ν ρ α} {l : Place} {next : Nat} {j : List Event}
      {a : α} {nodes : List ν} :
      Derives p l j (.matched a next nodes) → Derives (.map f p) l j (.matched (f a) next nodes)
  | mapHalted {α β : Type} {f : α → β} {p : Parser ν ρ α} {l : Place} {j : List Event}
      {halt : Stop} :
      Derives p l j (.halted halt) → Derives (.map f p) l j (.halted halt)
  | nested {α : Type} {p : Parser ν ρ α} {l : Place} {j : List Event} {result : Result ν α} :
      l.depth < input.maxDepth → Derives p l.deeper j result → Derives (.nested p) l j result
  | nestedDeep {α : Type} {p : Parser ν ρ α} {l : Place} :
      input.maxDepth ≤ l.depth → Derives (.nested p) l [.exceeded l.pos] (.halted .tooDeep)
  /-- The value is the index of the node, which comes behind those of the body. -/
  | alloc {α : Type} {build : α → ν} {p : Parser ν ρ α} {l : Place} {next : Nat}
      {j : List Event} {a : α} {nodes : List ν} :
      Derives p l j (.matched a next nodes) →
      Derives (.alloc build p) l j
        (.matched (l.stored + nodes.length) next (nodes ++ [build a]))
  | allocHalted {α : Type} {build : α → ν} {p : Parser ν ρ α} {l : Place} {j : List Event}
      {halt : Stop} :
      Derives p l j (.halted halt) → Derives (.alloc build p) l j (.halted halt)
  | ref {α : Type} {rule : ρ α} {l : Place} {j : List Event} {result : Result ν α} :
      Derives (rules rule) l j result → Derives (.ref rule) l j result

/-- The readings of a round over and over again until it fails. What the failing round
has stored is not part of the match. -/
inductive Repeats : {α : Type} → Parser ν ρ α → Place → List Event → Result ν (List α) → Prop
  | done {α : Type} {p : Parser ν ρ α} {l : Place} {j : List Event} :
      Derives p l j (.halted .failed) → Repeats p l j (.matched [] l.pos [])
  | deep {α : Type} {p : Parser ν ρ α} {l : Place} {j : List Event} :
      Derives p l j (.halted .tooDeep) → Repeats p l j (.halted .tooDeep)
  | more {α : Type} {p : Parser ν ρ α} {l : Place} {mid next : Nat} {j j' : List Event} {a : α}
      {as : List α} {nodes nodes' : List ν} :
      Derives p l j (.matched a mid nodes) →
      Repeats p (l.behind mid nodes) j' (.matched as next nodes') →
      Repeats p l (j ++ j') (.matched (a :: as) next (nodes ++ nodes'))
  | moreHalted {α : Type} {p : Parser ν ρ α} {l : Place} {mid : Nat} {j j' : List Event} {a : α}
      {nodes : List ν} {halt : Stop} :
      Derives p l j (.matched a mid nodes) →
      Repeats p (l.behind mid nodes) j' (.halted halt) → Repeats p l (j ++ j') (.halted halt)

end

end

/-! ### What holds of every reading -/

/-- The position of an event. -/
def Event.pos : Event → Nat
  | .missed pos _ => pos
  | .exceeded pos => pos

/-- Where a reading ends: at a position behind a match, or with a halt. -/
def Result.stop : Result ν α → Nat ⊕ Stop
  | .matched _ next _ => .inl next
  | .halted halt => .inr halt

/-- A reading moves forward inside the text, its events lie in the text, and one of them
is an excess of depth just if it ends with one. -/
structure Confined (size pos : Nat) (journal : List Event) (stop : Nat ⊕ Stop) : Prop where
  next : ∀ next, stop = .inl next → pos ≤ next ∧ next ≤ max pos size
  events : ∀ e ∈ journal, e.pos ≤ max pos size
  tooDeep : (∃ q, .exceeded q ∈ journal) ↔ stop = .inr .tooDeep

namespace Confined

variable {size pos mid : Nat} {journal journal' : List Event} {stop : Nat ⊕ Stop}

theorem matched {next : Nat} (h : pos ≤ next ∧ next ≤ max pos size) :
    Confined size pos [] (.inl next) := by
  refine ⟨?_, nofun, ?_⟩
  · rintro _ ⟨⟩
    exact h
  · exact ⟨nofun, nofun⟩

theorem matched_rest {w r : List Char} {input : Input} (h : input.rest pos = w ++ r) :
    Confined input.text.size pos [] (.inl (pos + w.length)) := by
  have hlength := congrArg List.length h
  rw [Input.length_rest, List.length_append] at hlength
  exact .matched (by omega)

theorem missed (e : Expectation) : Confined size pos [.missed pos e] (.inr .failed) := by
  refine ⟨nofun, ?_, ?_⟩
  · rintro _ (_ | _)
    · exact Nat.le_max_left _ _
    · contradiction
  · refine ⟨?_, nofun⟩
    rintro ⟨q, hq⟩
    cases List.mem_singleton.1 hq

theorem exceeded : Confined size pos [.exceeded pos] (.inr .tooDeep) := by
  refine ⟨nofun, ?_, fun _ => rfl, fun _ => ⟨pos, List.mem_singleton.2 rfl⟩⟩
  rintro _ (_ | _)
  · exact Nat.le_max_left _ _
  · contradiction

/-- Behind a reading that is not an excess of depth there is one just if there is one in
what follows. -/
theorem tooDeep_append {first : Nat ⊕ Stop} (h : Confined size pos journal first)
    (hfirst : first ≠ .inr .tooDeep) (h' : Confined size mid journal' stop) :
    (∃ q, .exceeded q ∈ journal ++ journal') ↔ stop = .inr .tooDeep := by
  rw [← h'.tooDeep]
  refine exists_congr fun q => List.mem_append.trans (or_iff_right fun hq => ?_)
  exact hfirst (h.tooDeep.1 ⟨q, hq⟩)

theorem andThen (h : Confined size pos journal (.inl mid))
    (h' : Confined size mid journal' stop) : Confined size pos (journal ++ journal') stop := by
  have hmid := h.next mid rfl
  refine ⟨fun next hstop => ?_, fun e he => ?_, h.tooDeep_append (by simp) h'⟩
  · have hnext := h'.next next hstop
    omega
  · rcases List.mem_append.1 he with he | he
    · exact h.events e he
    · have hpos := h'.events e he
      omega

theorem orElse (h : Confined size pos journal (.inr .failed))
    (h' : Confined size pos journal' stop) : Confined size pos (journal ++ journal') stop :=
  ⟨h'.next, fun e he => (List.mem_append.1 he).elim (h.events e) (h'.events e),
    h.tooDeep_append (by simp) h'⟩

theorem none (h : Confined size pos journal (.inr .failed)) :
    Confined size pos journal (.inl pos) := by
  have hrecovered := h.orElse (.matched ⟨Nat.le_refl pos, Nat.le_max_left _ _⟩)
  rwa [List.append_nil] at hrecovered

end Confined

section
variable {input : Input} {rules : Rules ν ρ}

mutual

theorem Derives.confined {α : Type} {p : Parser ν ρ α} {l : Place} {j : List Event}
    {result : Result ν α} : Derives input rules p l j result →
      Confined input.text.size l.pos j result.stop
  | .pure => .matched ⟨Nat.le_refl _, Nat.le_max_left _ _⟩
  | .fail => ⟨nofun, nofun, nofun, nofun⟩
  | .literal h => .matched_rest h.2.choose_spec.symm
  | .unsigned h _ _ => by
    subst h
    exact .matched_rest List.takeWhile_append_dropWhile.symm
  | .blanks h => by
    subst h
    exact .matched_rest List.takeWhile_append_dropWhile.symm
  | .endOfInput _ => .matched ⟨Nat.le_refl _, Nat.le_max_left _ _⟩
  | .noLiteral _ | .noUnsigned _ | .longUnsigned _ | .noEnd _ => .missed _
  | .both h h' => h.confined.andThen h'.confined
  | .bothFirst h => h.confined
  | .bothSecond h h' => h.confined.andThen h'.confined
  | .orElse h => h.confined
  | .orElseDeep h => h.confined
  | .orElseNext h h' => h.confined.orElse h'.confined
  | .opt h => h.confined
  | .optNone h => h.confined.none
  | .optDeep h => h.confined
  | .sepBy1 h h' => h.confined.andThen h'.confined
  | .sepBy1First h => h.confined
  | .sepBy1Rest h h' => h.confined.andThen h'.confined
  | .map h => h.confined
  | .mapHalted h => h.confined
  | .nested _ h => h.confined
  | .nestedDeep _ => .exceeded
  | .alloc h => h.confined
  | .allocHalted h => h.confined
  | .ref h => h.confined

theorem Repeats.confined {α : Type} {p : Parser ν ρ α} {l : Place} {j : List Event}
    {result : Result ν (List α)} : Repeats input rules p l j result →
      Confined input.text.size l.pos j result.stop
  | .done h => h.confined.none
  | .deep h => h.confined
  | .more h h' => h.confined.andThen h'.confined
  | .moreHalted h h' => h.confined.andThen h'.confined

end

end

end StreamTypes.Peg
