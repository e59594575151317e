import StreamTypes.Proofs.Peg.Ensures
import StreamTypes.Proofs.Text.Unsigned

/-!
# Runs on a known text

What a run does is settled by the text that follows, if it refers to no rules: in front
of a known text it reads a certain part of it and yields a certain value, or it does not
match. Either way no node is stored and the nesting depth stays.

## Main definitions

- `State.Same` — two states hold the same nodes at the same depth
- `Yields`, `Misses` — what a run does in front of a known text

## Main statements

- `Yields.both`, `Yields.optional`, `Misses.optional` — the combinators
- `Yields.unsigned`, `Yields.comma` — the primitives
- `ensures_choice` — a choice of which only one alternative can match
-/

namespace StreamTypes.Peg

variable {ν α β : Type} {ρ : Type → Type} {input : Input}

/-- Two states hold the same nodes at the same depth. -/
structure State.Same (s s' : State ν) : Prop where
  arena : s'.arena = s.arena
  depth : s'.depth = s.depth

namespace State.Same

variable {s s' s'' : State ν}

theorem refl (s : State ν) : s.Same s :=
  ⟨rfl, rfl⟩

theorem trans (h : s.Same s') (h' : s'.Same s'') : s.Same s'' :=
  ⟨h'.arena.trans h.arena, h'.depth.trans h.depth⟩

theorem record (s : State ν) (pos : Nat) (e : Expectation) : s.Same (s.record pos e) :=
  ⟨s.arena_record pos e, s.depth_record pos e⟩

/-- Going back to the nodes that are still the same changes nothing. -/
theorem truncate (h : s.Same s') : s.Same (s'.truncate s.arena.size) := by
  refine ⟨?_, h.depth⟩
  simp [State.truncate, h.arena]

end State.Same

/-- In front of a text that starts with `w` and goes on with `r`, the run reads `w` and
yields a value. -/
def Yields (input : Input) (run : Run ν α) (w r : List Char) (value : α) : Prop :=
  ∀ s pos, input.rest pos = w ++ r →
    run.Ensures s pos
      ⟨fun v next s' => v = value ∧ next = pos + w.length ∧ s.Same s', fun _ => False,
        fun _ => False, False⟩

/-- In front of the text the run does not match. -/
def Misses (input : Input) (run : Run ν α) (r : List Char) : Prop :=
  ∀ s pos, input.rest pos = r →
    run.Ensures s pos ⟨fun _ _ _ => False, s.Same, fun _ => False, False⟩

variable {run first : Run ν α} {second : Run ν β} {w w' r : List Char} {a : α} {b : β}

/-! ### Combinators -/

theorem Yields.yield (value : α) (r : List Char) :
    Yields input (Run.yield value : Run ν α) [] r value :=
  fun s _ _ => ⟨rfl, rfl, .refl s⟩

theorem Yields.andThen {next : α → Run ν β} (hfirst : Yields input first w (w' ++ r) a)
    (hnext : Yields input (next a) w' r b) :
    Yields input (first.andThen next) (w ++ w') r b := by
  intro s pos hrest
  rw [List.append_assoc] at hrest
  rw [Run.ensures_andThen]
  refine (hfirst s pos hrest).mono ?_ (fun _ h => h) (fun _ h => h) id
  rintro v mid s' ⟨rfl, rfl, hs'⟩
  refine (hnext s' _ (Input.rest_add hrest)).mono ?_ (fun _ h => h) (fun _ h => h) id
  rintro v' last s'' ⟨rfl, rfl, hs''⟩
  exact ⟨rfl, by rw [List.length_append, Nat.add_assoc], hs'.trans hs''⟩

theorem Yields.map (h : Yields input run w r a) (f : α → β) :
    Yields input (run.andThen fun v => Run.yield (f v)) w r (f a) := by
  have hmap : Yields input (run.andThen fun v => Run.yield (f v)) (w ++ []) r (f a) :=
    Yields.andThen (by rwa [List.nil_append]) (Yields.yield (f a) r)
  rwa [List.append_nil] at hmap

theorem Yields.both (hfirst : Yields input first w (w' ++ r) a)
    (hsecond : Yields input second w' r b) :
    Yields input (first.andThen fun a => second.andThen fun b => Run.yield (a, b))
      (w ++ w') r (a, b) :=
  hfirst.andThen (hsecond.map fun b => (a, b))

theorem Misses.andThen (h : Misses input first r) (next : α → Run ν β) :
    Misses input (first.andThen next) r := by
  intro s pos hrest
  rw [Run.ensures_andThen]
  exact (h s pos hrest).mono (fun _ _ _ h => h.elim) (fun _ h => h) (fun _ h => h) id

theorem Yields.optional (h : Yields input run w r a) :
    Yields input (Run.optional run) w r (some a) := by
  intro s pos hrest
  rw [Run.ensures_optional]
  refine (h s pos hrest).mono ?_ (fun _ h => h.elim) (fun _ h => h) id
  rintro v next s' ⟨rfl, hnext, hs'⟩
  exact ⟨rfl, hnext, hs'⟩

theorem Misses.optional (h : Misses input run r) :
    Yields input (Run.optional run) [] r none := by
  intro s pos hrest
  rw [Run.ensures_optional]
  refine (h s pos hrest).mono (fun _ _ _ h => h.elim) ?_ (fun _ h => h) id
  intro s' hs'
  exact ⟨rfl, rfl, hs'.truncate⟩

/-! ### Primitives -/

theorem lt_size_of_rest {pos : Nat} {c : Char} (h : input.rest pos = c :: r) :
    pos < input.text.size := by
  refine Nat.lt_of_not_le fun hle => ?_
  rw [Input.rest_eq_nil_iff.2 hle] at h
  cases h

theorem ensures_literal_of_rest {text : String} (htext : text ≠ "") {s : State ν} {pos : Nat}
    (hrest : input.rest pos = text.toList ++ r) (post : Ending ν String) :
    (Run.literal input text).Ensures s pos post ↔
      post.accepted text (pos + text.toList.length) s := by
  obtain ⟨c, w, hw⟩ := List.exists_cons_of_ne_nil (l := text.toList) (by simpa using htext)
  have hpos : pos < input.text.size := by
    rw [hw] at hrest
    exact lt_size_of_rest hrest
  rw [Run.ensures_literal, hrest, if_pos ⟨Nat.le_of_lt hpos, List.prefix_append _ r⟩]

theorem Yields.literal {text : String} (htext : text ≠ "") (r : List Char) :
    Yields input (Run.literal input text : Run ν String) text.toList r text := by
  intro s pos hrest
  rw [ensures_literal_of_rest htext hrest]
  exact ⟨rfl, rfl, .refl s⟩

theorem Misses.literal {text : String} (h : ¬ text.toList <+: r) :
    Misses input (Run.literal input text : Run ν String) r := by
  intro s pos hrest
  rw [Run.ensures_literal, hrest, if_neg fun h' => h h'.2]
  exact .record s _ _

/-- A numeral is read unless it goes on. -/
theorem Yields.unsigned {n : Nat} (hw : Text.IsNumeral w n)
    (hr : ∀ c ∈ r.head?, c.isDigit = false) :
    Yields input (Run.unsigned input : Run ν Nat) w r n := by
  intro s pos hrest
  rw [Run.ensures_unsigned, hrest, takeWhile_append_of_head hw.isDigit hr]
  dsimp only
  rw [if_neg hw.ne_nil, if_neg (Nat.not_lt.2 hw.length_le)]
  exact ⟨hw.value, rfl, .refl s⟩

theorem Misses.unsigned (hr : ∀ c ∈ r.head?, c.isDigit = false) :
    Misses input (Run.unsigned input : Run ν Nat) r := by
  intro s pos hrest
  have hnone : ([] ++ r).takeWhile Char.isDigit = [] := takeWhile_append_of_head nofun hr
  rw [List.nil_append] at hnone
  rw [Run.ensures_unsigned, hrest, hnone]
  exact .record s _ _

theorem Yields.blanks (hw : ∀ c ∈ w, isGap c = true) (hr : ∀ c ∈ r.head?, isGap c = false) :
    Yields input (Run.blanks input : Run ν String) w r (String.ofList w) := by
  intro s pos hrest
  rw [Run.ensures_blanks, hrest, takeWhile_append_of_head hw hr]
  exact ⟨rfl, rfl, .refl s⟩

section
variable {call : ∀ {α : Type}, ρ α → Run ν α}

/-- A comma is read together with the gap that follows it. -/
theorem Yields.comma (hw : ∀ c ∈ w, isGap c = true) (hr : ∀ c ∈ r.head?, isGap c = false) :
    Yields input (Parser.comma.eval input call : Run ν String) (',' :: w) r "," :=
  ((Yields.literal (show "," ≠ "" by decide) (w ++ r)).both (Yields.blanks hw hr)).map Prod.fst

theorem Misses.comma (hr : r.head? ≠ some ',') :
    Misses input (Parser.comma.eval input call : Run ν String) r := by
  refine Misses.andThen (Misses.andThen (Misses.literal ?_) _) _
  rintro ⟨v, rfl⟩
  exact hr rfl

/-- Where only one alternative can match, a choice does what this alternative does. Those in
front of it leave the nodes and the depth as they were. -/
theorem ensures_choice {ι : Type} {p : ι → Parser ν ρ α} {i : ι} {is : List ι} (hi : i ∈ is)
    (hmisses : ∀ j, j ≠ i → Misses input ((p j).eval input call) r) {s : State ν} {pos : Nat}
    (hrest : input.rest pos = r) {post : Ending ν α} (hnever : ∀ s', ¬ post.backtracked s')
    (hchosen : ∀ s', s.Same s' → ((p i).eval input call).Ensures s' pos post) :
    ((Parser.choice (is.map p)).eval input call).Ensures s pos post := by
  induction is generalizing s with
  | nil => simp at hi
  | cons j is ih =>
    rw [List.map_cons, Parser.ensures_choice_cons]
    by_cases heq : j = i
    · subst heq
      exact (hchosen s (.refl s)).mono (fun _ _ _ h => h) (fun s' h => (hnever s' h).elim)
        (fun _ h => h) id
    · have hi : i ∈ is := (List.mem_cons.1 hi).resolve_left (Ne.symm heq)
      refine (hmisses j heq s pos hrest).mono (fun _ _ _ h => h.elim) ?_ (fun _ h => h.elim)
        False.elim
      intro s' hs'
      refine (ih hi fun s'' hs'' => hchosen s'' (hs'.truncate.trans hs'')).mono
        (fun _ _ _ h => h) (fun s'' h => (hnever s'' h).elim) (fun _ h => h) id

end

end StreamTypes.Peg
