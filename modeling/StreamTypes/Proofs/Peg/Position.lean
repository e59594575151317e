import StreamTypes.Peg.Run

/-!
# Positions in a text

The primitives look at a text by position, while grammars speak about lists of
characters. Here the two views are tied together: `Input.rest` is what is left of
a text at a position, `Input.before` is what lies in front of it, and each
primitive look-up is restated as a fact about what is left.

## Main statements

- `holdsAt_iff` — a text is found where it is a prefix of what is left
- `spanAt_eq` — the run of a class is the longest one at the head of what is left
- `eq_or_head_of_append_eq` — two runs of a class at the head of one text
-/

namespace StreamTypes.Peg

namespace Input

/-- What is left of the text at a position. -/
def rest (input : Input) (pos : Nat) : List Char :=
  input.text.toList.drop pos

/-- What lies in front of a position. -/
def before (input : Input) (pos : Nat) : List Char :=
  input.text.toList.take pos

variable {input : Input} {pos : Nat} {w r : List Char}

@[simp] theorem length_rest (input : Input) (pos : Nat) :
    (input.rest pos).length = input.text.size - pos := by
  simp [rest]

theorem rest_eq_nil_iff : input.rest pos = [] ↔ input.text.size ≤ pos := by
  simp [rest]

theorem before_size (input : Input) : input.before input.text.size = input.text.toList :=
  List.take_length

@[simp] theorem size_ofString (source : String) (maxDepth : Int) :
    (Input.ofString source maxDepth).text.size = source.length :=
  String.length_toList

/-- Reading on from a position where the text starts with `w`. -/
theorem rest_add (h : input.rest pos = w ++ r) : input.rest (pos + w.length) = r := by
  rw [rest, ← List.drop_drop, ← rest, h, List.drop_left]

theorem before_add (h : input.rest pos = w ++ r) :
    input.before (pos + w.length) = input.before pos ++ w := by
  have hw : w = (input.text.toList.drop pos).take w.length := by
    rw [← rest, h, List.take_left]
  rw [before, List.take_add, ← hw, before]

/-- A position from which something is read lies in the text. -/
theorem add_le_size (hpos : pos ≤ input.text.size) (h : input.rest pos = w ++ r) :
    pos + w.length ≤ input.text.size := by
  have hlen : (input.rest pos).length = (w ++ r).length := by rw [h]
  rw [length_rest, List.length_append] at hlen
  omega

end Input

theorem getElem?_eq_head?_rest (input : Input) (pos : Nat) :
    input.text[pos]? = (input.rest pos).head? := by
  rw [Input.rest, List.head?_drop, Array.getElem?_toList]

theorem holdsAt_iff {input : Input} {pos : Nat} {w : List Char} :
    holdsAt input.text pos w = true ↔ pos ≤ input.text.size ∧ w <+: input.rest pos := by
  induction w generalizing pos with
  | nil => simp [holdsAt]
  | cons c w ih =>
    rw [holdsAt, Bool.and_eq_true, ih, beq_iff_eq, getElem?_eq_head?_rest]
    constructor
    · rintro ⟨hhead, hle, hw⟩
      obtain ⟨r, hr⟩ := List.head?_eq_some_iff.1 hhead
      have hnext : input.rest (pos + 1) = r := Input.rest_add (w := [c]) hr
      refine ⟨by omega, ?_⟩
      rw [hr, ← hnext]
      exact List.prefix_cons_inj c |>.2 hw
    · rintro ⟨hle, r, hr⟩
      have hpos := Input.add_le_size (w := [c]) hle hr.symm
      have hnext : input.rest (pos + 1) = w ++ r := Input.rest_add (w := [c]) hr.symm
      refine ⟨by rw [← hr]; rfl, hpos, ?_⟩
      rw [hnext]
      exact List.prefix_append w r

theorem spanEnd_eq (input : Input) (inClass : Char → Bool) (fuel pos : Nat)
    (hfuel : input.text.size - pos ≤ fuel) :
    spanEnd input.text inClass fuel pos =
      pos + ((input.rest pos).takeWhile inClass).length := by
  induction fuel generalizing pos with
  | zero =>
    -- nothing is left of the text, so neither side reads on
    rw [Input.rest_eq_nil_iff.2 (by omega)]
    rfl
  | succ fuel ih =>
    rw [spanEnd, getElem?_eq_head?_rest]
    cases hr : input.rest pos with
    | nil => rfl
    | cons c r =>
      have hnext : input.rest (pos + 1) = r := Input.rest_add (w := [c]) hr
      by_cases hc : inClass c = true
      · simp only [List.head?_cons, Option.any_some, hc, if_true]
        rw [ih (pos + 1) (by omega), hnext, List.takeWhile_cons_of_pos hc, List.length_cons]
        omega
      · simp [hc]

theorem spanAt_eq (input : Input) (inClass : Char → Bool) (pos : Nat) :
    spanAt input.text inClass pos = (input.rest pos).takeWhile inClass := by
  rw [spanAt, spanEnd_eq input inClass _ pos (Nat.le_refl _), Array.toList_extract]
  have hprefix := List.takeWhile_prefix (l := input.rest pos) inClass
  rw [List.extract_eq_take_drop, Nat.add_sub_cancel_left]
  exact (List.prefix_iff_eq_take.1 hprefix).symm

/-! ### Runs of a class -/

section
variable {inClass : Char → Bool} {w w' r v v' : List Char}

/-- A run of a class that is followed by another character is found in full. -/
theorem takeWhile_append_of_head (hw : ∀ c ∈ w, inClass c = true)
    (hr : ∀ c ∈ r.head?, inClass c = false) : (w ++ r).takeWhile inClass = w := by
  rw [List.takeWhile_append_of_pos hw]
  cases r with
  | nil => simp
  | cons c r => simp [hr c rfl]

theorem mem_of_takeWhile_eq (h : r.takeWhile inClass = w) : ∀ c ∈ w, inClass c = true := by
  rw [← h]
  exact List.all_eq_true.1 List.all_takeWhile

/-- Behind the longest run of a class stands no other character of it. -/
theorem head_of_takeWhile_eq (h : (w ++ r).takeWhile inClass = w) :
    ∀ c ∈ r.head?, inClass c = false := by
  intro c hc
  obtain ⟨r', rfl⟩ := List.head?_eq_some_iff.1 hc
  refine Bool.eq_false_iff.2 fun hin => ?_
  rw [List.takeWhile_append_of_pos (mem_of_takeWhile_eq h), List.takeWhile_cons_of_pos hin] at h
  simp at h

/-- Where a text starts with a run of a class and also with one that cannot go on, the
former is the latter or goes on. -/
theorem eq_or_head_of_append_eq (hw : ∀ c ∈ w, inClass c = true)
    (hw' : ∀ c ∈ w', inClass c = true) (hv' : ∀ c ∈ v'.head?, inClass c = false)
    (heq : w' ++ v' = w ++ v) : v = v' ∨ ∃ c ∈ v.head?, inClass c = true := by
  rcases List.append_eq_append_iff.1 heq with ⟨x, rfl, rfl⟩ | ⟨x, rfl, rfl⟩
  · cases x with
    | nil => exact .inl rfl
    | cons c x =>
      have hc := hv' c rfl
      rw [hw c (by simp)] at hc
      exact absurd hc (by decide)
  · cases x with
    | nil => exact .inl rfl
    | cons c x => exact .inr ⟨c, rfl, hw' c (by simp)⟩

end

end StreamTypes.Peg
