import StreamTypes.Proofs.Peg.Position

/-!
# Texts without gaps

The spaces and tabs behind a comma separate nothing. Without them a text is shorter, and
each position moves back by what has been left out in front of it. Positions inside a gap
all move to the end of their comma, so only the positions at which a gap has been read in
full keep their order and what is left of the text there.

## Main definitions

- `dropGaps` — a text without the gaps behind its commas
- `Input.withoutGaps`, `Input.moved` — the same for an input, and where a position goes
- `Input.Settled` — the position does not stand inside a gap

## Main statements

- `Input.Settled.rest_moved` — what is left at a position after the move
- `Input.Settled.add`, `Input.Settled.comma` — reading on over a token, and over a comma
  with its gap
- `Input.Settled.moved_lt_iff` — settled positions keep their order
-/

namespace StreamTypes.Peg

/-- The text without the gaps behind its commas. A comma, and perhaps a part of its gap,
stands in front of the text if `behind` is true. -/
def dropGaps (behind : Bool) : List Char → List Char
  | [] => []
  | c :: w => if behind && isGap c then dropGaps true w else c :: dropGaps (c = ',') w

/-- Whether a text ends with a comma, or with a comma and a part of its gap. -/
def endsBehind (behind : Bool) : List Char → Bool
  | [] => behind
  | c :: w => endsBehind (behind && isGap c || c = ',') w

/-- A word without commas, spaces and tabs. -/
def Solid (w : List Char) : Prop :=
  ∀ c ∈ w, c ≠ ',' ∧ isGap c = false

instance (w : List Char) : Decidable (Solid w) :=
  List.decidableBAll _ w

variable {behind : Bool} {u v w g r : List Char}

theorem dropGaps_append (behind : Bool) (u v : List Char) :
    dropGaps behind (u ++ v) = dropGaps behind u ++ dropGaps (endsBehind behind u) v := by
  induction u generalizing behind with
  | nil => rfl
  | cons c u ih =>
    by_cases h : (behind && isGap c) = true
    · simp [dropGaps, endsBehind, h, ih]
    · simp [dropGaps, endsBehind, h, ih]

/-- Where a text does not start like a gap it does not matter what stands in front. -/
theorem dropGaps_of_head (h : ∀ c ∈ w.head?, isGap c = false) :
    dropGaps behind w = dropGaps false w := by
  cases w with
  | nil => rfl
  | cons c w => simp [dropGaps, h c rfl]

theorem head?_dropGaps (w : List Char) : (dropGaps false w).head? = w.head? := by
  cases w with
  | nil => rfl
  | cons c w => simp [dropGaps]

theorem endsBehind_append (behind : Bool) (u v : List Char) :
    endsBehind behind (u ++ v) = endsBehind (endsBehind behind u) v := by
  induction u generalizing behind with
  | nil => rfl
  | cons c u ih => simp [endsBehind, ih]

theorem Solid.dropGaps (h : Solid w) : dropGaps behind w = w := by
  induction w generalizing behind with
  | nil => rfl
  | cons c w ih =>
    have hc := h c List.mem_cons_self
    have hw : Solid w := fun d hd => h d (List.mem_cons_of_mem c hd)
    simp [Peg.dropGaps, hc, ih hw]

theorem Solid.endsBehind (h : Solid w) (hne : w ≠ []) : endsBehind behind w = false := by
  induction w generalizing behind with
  | nil => exact (hne rfl).elim
  | cons c w ih =>
    have hc := h c List.mem_cons_self
    have hw : Solid w := fun d hd => h d (List.mem_cons_of_mem c hd)
    by_cases hnil : w = []
    · simp [Peg.endsBehind, hc, hnil]
    · exact ih hw hnil

theorem dropGaps_of_gap (h : ∀ c ∈ g, isGap c = true) : dropGaps true g = [] := by
  induction g with
  | nil => rfl
  | cons c g ih => simp [dropGaps, h c, ih fun d hd => h d (List.mem_cons_of_mem c hd)]

theorem endsBehind_of_gap (h : ∀ c ∈ g, isGap c = true) : endsBehind true g = true := by
  induction g with
  | nil => rfl
  | cons c g ih => simp [endsBehind, h c, ih fun d hd => h d (List.mem_cons_of_mem c hd)]

theorem dropGaps_comma (hg : ∀ c ∈ g, isGap c = true) (hr : ∀ c ∈ r.head?, isGap c = false) :
    dropGaps behind (',' :: (g ++ r)) = ',' :: dropGaps false r := by
  have hcomma : isGap ',' = false := rfl
  simp [dropGaps, dropGaps_append, dropGaps_of_gap hg, endsBehind_of_gap hg,
    dropGaps_of_head hr, hcomma]

/-- A word without commas is found in front of a text just if it is found there without
the gaps. -/
theorem prefix_dropGaps_iff (h : Solid w) : w <+: dropGaps false r ↔ w <+: r := by
  induction w generalizing r with
  | nil => simp
  | cons c w ih =>
    have hc := (h c List.mem_cons_self).1
    have hw : Solid w := fun d hd => h d (List.mem_cons_of_mem c hd)
    cases r with
    | nil => rfl
    | cons d r =>
      simp only [dropGaps, Bool.false_and, Bool.false_eq_true, if_false, List.cons_prefix_cons]
      refine and_congr_right fun hd => ?_
      rw [show decide (d = ',') = false by simpa [← hd] using hc, ih hw]

theorem takeWhile_dropGaps (r : List Char) :
    (dropGaps false r).takeWhile Char.isDigit = r.takeWhile Char.isDigit := by
  induction r with
  | nil => rfl
  | cons d r ih =>
    by_cases hd : d.isDigit = true
    · have hcomma : d ≠ ',' := by
        rintro rfl
        exact absurd hd (by decide)
      simp [dropGaps, hd, hcomma, ih]
    · simp [dropGaps, hd]

theorem solid_of_isDigit (h : ∀ c ∈ w, c.isDigit = true) : Solid w := by
  intro c hc
  have hdigit := h c hc
  refine ⟨?_, ?_⟩
  · rintro rfl
    exact absurd hdigit (by decide)
  · refine Bool.eq_false_iff.2 fun hgap => ?_
    simp only [isGap, Bool.or_eq_true, decide_eq_true_eq] at hgap
    rcases hgap with rfl | rfl <;> exact absurd hdigit (by decide)

/-! ### Positions -/

namespace Input

/-- The input without the gaps behind the commas of its text. -/
def withoutGaps (input : Input) : Input :=
  ⟨(dropGaps false input.text.toList).toArray, input.maxDepth⟩

/-- Where a position goes when the gaps are left out. -/
def moved (input : Input) (pos : Nat) : Nat :=
  (dropGaps false (input.before pos)).length

/-- The position does not stand in front of a space or tab that belongs to a gap. -/
structure Settled (input : Input) (pos : Nat) : Prop where
  le_size : pos ≤ input.text.size
  head : endsBehind false (input.before pos) = true →
    ∀ c ∈ (input.rest pos).head?, isGap c = false

variable {input : Input} {pos pos' : Nat}

theorem before_append_rest (input : Input) (pos : Nat) :
    input.before pos ++ input.rest pos = input.text.toList :=
  List.take_append_drop pos _

theorem settled_zero (input : Input) : input.Settled 0 :=
  ⟨Nat.zero_le _, nofun⟩

theorem moved_size (input : Input) :
    input.moved input.text.size = input.withoutGaps.text.size := by
  rw [moved, before_size, withoutGaps, List.size_toArray]

/-- What is left of the text at a position loses its gaps, too. -/
theorem Settled.rest_moved (h : input.Settled pos) :
    input.withoutGaps.rest (input.moved pos) = dropGaps false (input.rest pos) := by
  have htext : input.withoutGaps.text.toList =
      dropGaps false (input.before pos) ++ dropGaps false (input.rest pos) := by
    rw [withoutGaps, ← input.before_append_rest pos, dropGaps_append]
    cases hbehind : endsBehind false (input.before pos) with
    | false => rfl
    | true => rw [dropGaps_of_head (h.head hbehind)]
  rw [rest, htext, moved, List.drop_left]

theorem moved_le_size (input : Input) (pos : Nat) :
    input.moved pos ≤ input.withoutGaps.text.size := by
  have hlength := congrArg List.length (dropGaps_append false (input.before pos) (input.rest pos))
  rw [before_append_rest, List.length_append] at hlength
  rw [withoutGaps, List.size_toArray, hlength]
  exact Nat.le_add_right _ _

/-- The first character that is left stays the same. -/
theorem Settled.getElem?_moved (h : input.Settled pos) :
    input.withoutGaps.text[input.moved pos]? = input.text[pos]? := by
  rw [getElem?_eq_head?_rest, getElem?_eq_head?_rest, h.rest_moved, head?_dropGaps]

/-- Behind a word without commas and gaps the text goes on where it did. -/
theorem Settled.add (h : input.Settled pos) (hrest : input.rest pos = w ++ r) (hw : Solid w)
    (hne : w ≠ []) : input.Settled (pos + w.length) ∧
      input.moved (pos + w.length) = input.moved pos + w.length := by
  have hbefore := input.before_add hrest
  refine ⟨⟨input.add_le_size h.le_size hrest, fun hbehind => ?_⟩, ?_⟩
  · rw [hbefore, endsBehind_append, hw.endsBehind hne] at hbehind
    cases hbehind
  · rw [moved, hbefore, dropGaps_append, hw.dropGaps, List.length_append, moved]

/-- Of a comma and its gap only the comma is left. -/
theorem Settled.comma (h : input.Settled pos) (hrest : input.rest pos = ',' :: (g ++ r))
    (hg : ∀ c ∈ g, isGap c = true) (hr : ∀ c ∈ r.head?, isGap c = false) :
    input.Settled (pos + (',' :: g).length) ∧
      input.moved (pos + (',' :: g).length) = input.moved pos + 1 := by
  have hrest : input.rest pos = (',' :: g) ++ r := hrest
  refine ⟨⟨input.add_le_size h.le_size hrest, fun _ => ?_⟩, ?_⟩
  · rwa [input.rest_add hrest]
  · have hcomma : ∀ behind, dropGaps behind (',' :: g) = [','] := by
      intro behind
      simp [dropGaps, dropGaps_of_gap hg, show isGap ',' = false from rfl]
    rw [moved, input.before_add hrest, dropGaps_append, hcomma, List.length_append]
    rfl

/-- At a settled position the next character stays, so what stands behind it is moved to a
later position. -/
theorem Settled.moved_lt (h : input.Settled pos) (hlt : pos < pos')
    (hsize : pos' ≤ input.text.size) : input.moved pos < input.moved pos' := by
  obtain ⟨n, rfl⟩ := Nat.exists_eq_add_of_lt hlt
  obtain ⟨c, r, hrest⟩ : ∃ c r, input.rest pos = c :: r := by
    refine List.exists_cons_of_ne_nil fun hnil => ?_
    rw [rest_eq_nil_iff] at hnil
    omega
  obtain ⟨w, v, hr, hlength⟩ : ∃ w v, r = w ++ v ∧ w.length = n := by
    refine ⟨r.take n, r.drop n, (List.take_append_drop n r).symm, ?_⟩
    have hlength := congrArg List.length hrest
    rw [length_rest, List.length_cons] at hlength
    rw [List.length_take]
    omega
  have hword : input.rest pos = (c :: w) ++ v := by rw [hrest, hr]; rfl
  have hkept : ¬ (endsBehind false (input.before pos) && isGap c) = true := by
    intro hgap
    rw [Bool.and_eq_true] at hgap
    have hhead := h.head hgap.1 c (by rw [hrest]; rfl)
    rw [hhead] at hgap
    exact Bool.false_ne_true hgap.2
  have hpos : pos + n + 1 = pos + (c :: w).length := by
    rw [List.length_cons, hlength]
    rfl
  rw [hpos, moved, moved, input.before_add hword, dropGaps_append, List.length_append, dropGaps,
    if_neg hkept, List.length_cons]
  omega

theorem Settled.moved_lt_iff (h : input.Settled pos) (h' : input.Settled pos') :
    input.moved pos < input.moved pos' ↔ pos < pos' := by
  refine ⟨fun hlt => ?_, fun hlt => h.moved_lt hlt h'.le_size⟩
  rcases Nat.lt_trichotomy pos pos' with hpos | rfl | hpos
  · exact hpos
  · omega
  · have := h'.moved_lt hpos h.le_size
    omega

theorem Settled.moved_eq_iff (h : input.Settled pos) (h' : input.Settled pos') :
    input.moved pos = input.moved pos' ↔ pos = pos' := by
  have hlt := h.moved_lt_iff h'
  have hgt := h'.moved_lt_iff h
  omega

end Input

end StreamTypes.Peg
