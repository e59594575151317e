import StreamTypes.Peg.Error
import StreamTypes.Proofs.Peg.Ensures
import StreamTypes.Proofs.Peg.Gaps

/-!
# Reading a text without its gaps

A run on a text and the run of the same expression on the text without gaps go side by
side: they end in the same way, with the same value and the same nodes, and whatever the
first one notes at a position the second one notes where that position has moved. This
holds of expressions in which each comma is read together with its gap. The relation is
kept by every combinator; lists need not have the same number of rounds left, since in
either text no more rounds are read than there are characters.

## Main definitions

- `State.Moved` — a state describes another one after the move
- `Follows` — two endings correspond
- `Run.Follows` — one run follows another one, which reads some characters at least

## Main statements

- `Run.Follows.andThen`, `Run.Follows.recover`, `Run.Follows.repeated` — the combinators
- `Run.Follows.literal`, `Run.Follows.comma`, `Run.Follows.unsigned` — the primitives
-/

namespace StreamTypes.Peg

variable {ν α β : Type} {ρ : Type → Type} {input : Input}

/-- The second state is the first one with all positions moved. -/
structure State.Moved (input : Input) (s s' : State ν) : Prop where
  depth : s'.depth = s.depth
  arena : s'.arena = s.arena
  settled : input.Settled s.furthest
  furthest : s'.furthest = input.moved s.furthest
  expected : s'.expected = s.expected
  settledDepth : ∀ q ∈ s.tooDeepAt, input.Settled q
  tooDeepAt : s'.tooDeepAt = s.tooDeepAt.map input.moved

namespace State.Moved

variable {s s' t t' : State ν} {pos : Nat}

theorem start (input : Input) : State.Moved input ({} : State ν) {} :=
  ⟨rfl, rfl, input.settled_zero, rfl, rfl, nofun, rfl⟩

theorem truncate (h : t.Moved input t') (hs : s.Moved input s') :
    (t.truncate s.arena.size).Moved input (t'.truncate s'.arena.size) := by
  refine ⟨h.depth, ?_, h.settled, h.furthest, h.expected, h.settledDepth, h.tooDeepAt⟩
  rw [State.truncate, State.truncate, h.arena, hs.arena]

theorem enter (h : s.Moved input s') : s.enter.Moved input s'.enter :=
  ⟨congrArg (· + 1) h.depth, h.arena, h.settled, h.furthest, h.expected, h.settledDepth,
    h.tooDeepAt⟩

theorem leave (h : s.Moved input s') : s.leave.Moved input s'.leave :=
  ⟨congrArg (· - 1) h.depth, h.arena, h.settled, h.furthest, h.expected, h.settledDepth,
    h.tooDeepAt⟩

theorem push (h : s.Moved input s') (node : ν) : (s.push node).Moved input (s'.push node) :=
  ⟨h.depth, congrArg (·.push node) h.arena, h.settled, h.furthest, h.expected,
    h.settledDepth, h.tooDeepAt⟩

theorem recordDepth (h : s.Moved input s') (hpos : input.Settled pos) :
    (s.recordDepth pos).Moved input (s'.recordDepth (input.moved pos)) := by
  refine ⟨h.depth, h.arena, h.settled, h.furthest, h.expected, ?_, ?_⟩
  · intro q hq
    cases hs : s.tooDeepAt with
    | none =>
      rw [State.recordDepth, hs] at hq
      obtain rfl : pos = q := Option.some.inj hq
      exact hpos
    | some q' =>
      rw [State.recordDepth, hs] at hq
      exact h.settledDepth q (hs.trans hq)
  · rw [State.recordDepth, State.recordDepth, h.tooDeepAt]
    cases s.tooDeepAt <;> rfl

/-- What is noted at a settled position is noted where it moves: settled positions keep
their order. -/
theorem record (h : s.Moved input s') (hpos : input.Settled pos) (e : Expectation) :
    (s.record pos e).Moved input (s'.record (input.moved pos) e) := by
  have hlt := h.settled.moved_lt_iff hpos
  have heq := h.settled.moved_eq_iff hpos
  rw [State.record, State.record, h.furthest]
  by_cases hless : s.furthest < pos
  · rw [if_pos hless, if_pos (hlt.2 hless)]
    exact ⟨h.depth, h.arena, hpos, rfl, rfl, h.settledDepth, h.tooDeepAt⟩
  · rw [if_neg hless, if_neg (mt hlt.1 hless)]
    by_cases hsame : s.furthest = pos
    · rw [if_pos hsame, if_pos (heq.2 hsame)]
      exact ⟨h.depth, h.arena, h.settled, rfl, congrArg (·.insert e) h.expected,
        h.settledDepth, h.tooDeepAt⟩
    · rw [if_neg hsame, if_neg (mt heq.1 hsame)]
      exact h

end State.Moved

/-- The second ending is the first one with all positions moved. A match ends at `start`
or behind it. -/
inductive Follows (input : Input) (start : Nat) :
    Outcome α × State ν → Outcome α × State ν → Prop
  | accepted {value : α} {next : Nat} {s s' : State ν} :
      start ≤ next → input.Settled next → s.Moved input s' →
      Follows input start (.accepted value next, s) (.accepted value (input.moved next), s')
  | backtracked {failedAt failedAt' : Nat} {s s' : State ν} : s.Moved input s' →
      Follows input start (.backtracked failedAt, s) (.backtracked failedAt', s')
  | tooDeep {failedAt failedAt' : Nat} {s s' : State ν} : s.Moved input s' →
      Follows input start (.tooDeep failedAt, s) (.tooDeep failedAt', s')
  | exhausted {s s' : State ν} : s.Moved input s' →
      Follows input start (.exhausted, s) (.exhausted, s')

theorem Follows.mono {start start' : Nat} {x y : Outcome α × State ν}
    (h : Follows input start x y) (hle : start' ≤ start) : Follows input start' x y := by
  cases h with
  | accepted hnext hsettled hs => exact .accepted (Nat.le_trans hle hnext) hsettled hs
  | backtracked hs => exact .backtracked hs
  | tooDeep hs => exact .tooDeep hs
  | exhausted hs => exact .exhausted hs

/-- From corresponding states and positions the second run does what the first one does,
which reads at least `n` characters where it matches. -/
def Run.Follows (input : Input) (n : Nat) (run run' : Run ν α) : Prop :=
  ∀ s s' pos, input.Settled pos → s.Moved input s' →
    Peg.Follows input (pos + n) (run s pos) (run' s' (input.moved pos))

namespace Run.Follows

variable {m n : Nat}

/-! ### Combinators -/

theorem mono {run run' : Run ν α} (h : Run.Follows input n run run') (hle : m ≤ n) :
    Run.Follows input m run run' :=
  fun s s' pos hpos hs => (h s s' pos hpos hs).mono (Nat.add_le_add_left hle pos)

theorem yield (value : α) : Run.Follows input 0 (Run.yield value : Run ν α) (Run.yield value) :=
  fun _ _ _ hpos hs => .accepted (Nat.le_refl _) hpos hs

theorem giveUp : Run.Follows input n (Run.giveUp : Run ν α) Run.giveUp :=
  fun _ _ _ _ hs => .backtracked hs

theorem andThen {first first' : Run ν α} {next next' : α → Run ν β}
    (hfirst : Run.Follows input m first first')
    (hnext : ∀ v, Run.Follows input n (next v) (next' v)) :
    Run.Follows input (m + n) (first.andThen next) (first'.andThen next') := by
  intro s s' pos hpos hs
  have hrun := hfirst s s' pos hpos hs
  simp only [Run.andThen]
  generalize first s pos = x at hrun
  generalize first' s' (input.moved pos) = y at hrun
  cases hrun with
  | accepted hmid hsettled ht =>
    exact (hnext _ _ _ _ hsettled ht).mono (by omega)
  | backtracked ht => exact .backtracked ht
  | tooDeep ht => exact .tooDeep ht
  | exhausted ht => exact .exhausted ht

theorem map {run run' : Run ν α} (h : Run.Follows input n run run') (f : α → β) :
    Run.Follows input n (run.andThen fun v => Run.yield (f v))
      (run'.andThen fun v => Run.yield (f v)) :=
  h.andThen fun v => yield (f v)

theorem both {first first' : Run ν α} {second second' : Run ν β}
    (hfirst : Run.Follows input m first first') (hsecond : Run.Follows input n second second') :
    Run.Follows input (m + n)
      (first.andThen fun a => second.andThen fun b => Run.yield (a, b))
      (first'.andThen fun a => second'.andThen fun b => Run.yield (a, b)) :=
  hfirst.andThen fun a => hsecond.map fun b => (a, b)

/-- The second alternative starts where the first one did, with the same nodes. -/
theorem recover {first first' second second' : Run ν α}
    (hfirst : Run.Follows input n first first') (hsecond : Run.Follows input n second second') :
    Run.Follows input n (first.recover second) (first'.recover second') := by
  intro s s' pos hpos hs
  have hrun := hfirst s s' pos hpos hs
  simp only [Run.recover]
  generalize first s pos = x at hrun
  generalize first' s' (input.moved pos) = y at hrun
  cases hrun with
  | accepted hnext hsettled ht => exact .accepted hnext hsettled ht
  | backtracked ht => exact hsecond _ _ pos hpos (ht.truncate hs)
  | tooDeep ht => exact .tooDeep ht
  | exhausted ht => exact .exhausted ht

theorem optional {body body' : Run ν α} (h : Run.Follows input n body body') :
    Run.Follows input 0 (Run.optional body) (Run.optional body') :=
  ((h.map some).mono (Nat.zero_le n)).recover (yield none)

/-- The lists of the two runs have enough rounds, since each round moves on in both
texts. -/
theorem repeated {step step' : Run ν α} (h : Run.Follows input 1 step step')
    {rounds rounds' : Nat} (values : List α) {s s' : State ν} {pos : Nat}
    (hpos : input.Settled pos) (hs : s.Moved input s')
    (hrounds : input.text.size - pos < rounds)
    (hrounds' : input.withoutGaps.text.size - input.moved pos < rounds') :
    Peg.Follows input pos (Run.repeated step rounds values s pos)
      (Run.repeated step' rounds' values s' (input.moved pos)) := by
  induction rounds generalizing rounds' values s s' pos with
  | zero => exact (Nat.not_lt_zero _ hrounds).elim
  | succ rounds ih =>
    cases rounds' with
    | zero => exact (Nat.not_lt_zero _ hrounds').elim
    | succ rounds' =>
      have hstep := h s s' pos hpos hs
      simp only [Run.repeated, Run.optional, Run.recover, Run.andThen]
      generalize step s pos = x at hstep
      generalize step' s' (input.moved pos) = y at hstep
      cases hstep with
      | accepted hnext hsettled ht =>
        rename_i v next t t'
        have hlt := hpos.moved_lt hnext hsettled.le_size
        have hsize := hsettled.le_size
        have hsize' := input.moved_le_size next
        exact (ih (v :: values) hsettled ht (by omega) (by omega)).mono (by omega)
      | backtracked ht => exact .accepted (Nat.le_refl pos) hpos (ht.truncate hs)
      | tooDeep ht => exact .tooDeep ht
      | exhausted ht => exact .exhausted ht

theorem deeper {body body' : Run ν α} (h : Run.Follows input n body body') (maxDepth : Int) :
    Run.Follows input n (Run.deeper maxDepth body) (Run.deeper maxDepth body') := by
  intro s s' pos hpos hs
  simp only [Run.deeper, hs.depth]
  split
  · exact .tooDeep (hs.recordDepth hpos)
  · have hrun := h s.enter s'.enter pos hpos hs.enter
    generalize body s.enter pos = x at hrun
    generalize body' s'.enter (input.moved pos) = y at hrun
    cases hrun with
    | accepted hnext hsettled ht => exact .accepted hnext hsettled ht.leave
    | backtracked ht => exact .backtracked ht.leave
    | tooDeep ht => exact .tooDeep ht.leave
    | exhausted ht => exact .exhausted ht.leave

/-! ### Primitives -/

theorem literal {text : String} (htext : Solid text.toList) (hne : text ≠ "") :
    Run.Follows (ν := ν) input 1 (Run.literal input text)
      (Run.literal input.withoutGaps text) := by
  intro s s' pos hpos hs
  have hword : text.toList ≠ [] := by simpa using hne
  have hiff : holdsAt input.withoutGaps.text (input.moved pos) text.toList =
      holdsAt input.text pos text.toList := by
    rw [Bool.eq_iff_iff, holdsAt_iff, holdsAt_iff, hpos.rest_moved, prefix_dropGaps_iff htext]
    exact and_congr_left' (iff_of_true (input.moved_le_size pos) hpos.le_size)
  simp only [Run.literal, hiff]
  by_cases hfound : holdsAt input.text pos text.toList = true
  · obtain ⟨r, hr⟩ := (holdsAt_iff.1 hfound).2
    obtain ⟨hsettled, hmoved⟩ := hpos.add hr.symm htext hword
    rw [if_pos hfound, if_pos hfound, ← String.length_toList, ← hmoved]
    have hlength := List.length_pos_iff.2 hword
    exact .accepted (by omega) hsettled hs
  · rw [if_neg hfound, if_neg hfound]
    exact .backtracked (hs.record hpos _)

theorem unsigned :
    Run.Follows (ν := ν) input 1 (Run.unsigned input) (Run.unsigned input.withoutGaps) := by
  intro s s' pos hpos hs
  have hdigits : spanAt input.withoutGaps.text Char.isDigit (input.moved pos) =
      spanAt input.text Char.isDigit pos := by
    rw [spanAt_eq, spanAt_eq, hpos.rest_moved, takeWhile_dropGaps]
  simp only [Run.unsigned, hdigits]
  by_cases hnone : (spanAt input.text Char.isDigit pos).isEmpty = true
  · rw [if_pos hnone, if_pos hnone]
    exact .backtracked (hs.record hpos _)
  · rw [if_neg hnone, if_neg hnone]
    by_cases hlong : Text.numeralLimit < (spanAt input.text Char.isDigit pos).length
    · rw [if_pos hlong, if_pos hlong]
      exact .backtracked (hs.record hpos _)
    · rw [if_neg hlong, if_neg hlong]
      rw [spanAt_eq] at hnone ⊢
      have hne : (input.rest pos).takeWhile Char.isDigit ≠ [] := by simpa using hnone
      obtain ⟨r, hr⟩ := List.takeWhile_prefix (l := input.rest pos) Char.isDigit
      obtain ⟨hsettled, hmoved⟩ :=
        hpos.add hr.symm (solid_of_isDigit (mem_of_takeWhile_eq rfl)) hne
      rw [← hmoved]
      have hlength := List.length_pos_iff.2 hne
      exact .accepted (by omega) hsettled hs

theorem endOfInput :
    Run.Follows (ν := ν) input 0 (Run.endOfInput input) (Run.endOfInput input.withoutGaps) := by
  intro s s' pos hpos hs
  have hsize : input.Settled input.text.size := by
    refine ⟨Nat.le_refl _, fun _ => ?_⟩
    rw [Input.rest_eq_nil_iff.2 (Nat.le_refl _)]
    nofun
  have hend : input.moved pos = input.withoutGaps.text.size ↔ pos = input.text.size := by
    rw [← input.moved_size, hpos.moved_eq_iff hsize]
  simp only [Run.endOfInput, hend]
  by_cases hpos' : pos = input.text.size
  · rw [if_pos hpos', if_pos hpos']
    exact .accepted (Nat.le_refl _) hpos hs
  · rw [if_neg hpos', if_neg hpos']
    exact .backtracked (hs.record hpos _)

section
variable {call call' : ∀ {α : Type}, ρ α → Run ν α} {s : State ν} {pos : Nat} {g r : List Char}

theorem eval_comma (hrest : input.rest pos = ',' :: (g ++ r)) (hpos : pos ≤ input.text.size)
    (hg : ∀ c ∈ g, isGap c = true) (hr : ∀ c ∈ r.head?, isGap c = false) :
    Parser.comma.eval input call s pos = (.accepted "," (pos + (',' :: g).length), s) := by
  have hfound : holdsAt input.text pos ",".toList = true :=
    holdsAt_iff.2 ⟨hpos, _, hrest.symm⟩
  have hgap : spanAt input.text isGap (pos + ",".length) = g := by
    have hnext : input.rest (pos + ",".length) = g ++ r := Input.rest_add (w := [',']) hrest
    rw [spanAt_eq, hnext, takeWhile_append_of_head hg hr]
  simp only [Parser.comma, Parser.thenBlanks, Parser.terminated, Parser.eval_map, Parser.eval_both,
    Parser.eval_literal, Parser.eval_blanks, Run.andThen, Run.literal, Run.blanks, Run.yield,
    if_pos hfound, hgap, List.length_cons]
  congr 2
  rw [Nat.add_assoc, Nat.add_comm g.length 1]
  rfl

theorem eval_comma_of_ne (hrest : (input.rest pos).head? ≠ some ',') :
    Parser.comma.eval input call s pos = (.backtracked pos, s.record pos (.literal ",")) := by
  have hnone : ¬ holdsAt input.text pos ",".toList = true := by
    intro hfound
    obtain ⟨r, hr⟩ := (holdsAt_iff.1 hfound).2
    exact hrest (by rw [← hr]; rfl)
  simp only [Parser.comma, Parser.thenBlanks, Parser.terminated, Parser.eval_map, Parser.eval_both,
    Parser.eval_literal, Run.andThen, Run.literal, if_neg hnone]
  rfl

/-- A comma is read with its gap, of which nothing is left in the other text. -/
theorem comma : Run.Follows input 1 (Parser.comma.eval input call)
    (Parser.comma.eval input.withoutGaps call') := by
  intro s s' pos hpos hs
  by_cases hcomma : (input.rest pos).head? = some ','
  · obtain ⟨v, hv⟩ := List.head?_eq_some_iff.1 hcomma
    obtain ⟨g, r, rfl, hg, hr⟩ : ∃ g r, v = g ++ r ∧ (∀ c ∈ g, isGap c = true) ∧
        ∀ c ∈ r.head?, isGap c = false := by
      refine ⟨v.takeWhile isGap, v.dropWhile isGap, List.takeWhile_append_dropWhile.symm,
        mem_of_takeWhile_eq rfl, head_of_takeWhile_eq (w := v.takeWhile isGap) ?_⟩
      rw [List.takeWhile_append_dropWhile]
    obtain ⟨hsettled, hmoved⟩ := hpos.comma hv hg hr
    have hv' : input.withoutGaps.rest (input.moved pos) = ',' :: ([] ++ dropGaps false r) := by
      rw [hpos.rest_moved, hv, dropGaps_comma hg hr]
      rfl
    have hr' : ∀ c ∈ (dropGaps false r).head?, isGap c = false := by
      rwa [head?_dropGaps]
    rw [eval_comma hv hpos.le_size hg hr,
      eval_comma hv' (input.moved_le_size pos) nofun hr', List.length_singleton, ← hmoved]
    refine .accepted ?_ hsettled hs
    rw [List.length_cons]
    omega
  · have hcomma' : (input.withoutGaps.rest (input.moved pos)).head? ≠ some ',' := by
      rwa [hpos.rest_moved, head?_dropGaps]
    rw [eval_comma_of_ne hcomma, eval_comma_of_ne hcomma']
    exact .backtracked (hs.record hpos _)

/-! ### Shapes of forms -/

/-- The index of a stored node is the number of nodes in front of it, which the two runs
have in common. -/
theorem alloc {body : Parser ν ρ α}
    (h : Run.Follows input n (body.eval input call) (body.eval input.withoutGaps call'))
    (build : α → ν) :
    Run.Follows input n ((body.alloc build).eval input call)
      ((body.alloc build).eval input.withoutGaps call') := by
  refine h.andThen (n := 0) fun v s s' pos hpos hs => ?_
  rw [hs.arena]
  exact .accepted (Nat.le_refl pos) hpos (hs.push (build v))

theorem form {keyword : String} {inner : Parser ν ρ α} (hkeyword : Solid keyword.toList)
    (hne : keyword ≠ "")
    (h : Run.Follows input n (inner.eval input call) (inner.eval input.withoutGaps call')) :
    Run.Follows input 1 ((Parser.form keyword inner).eval input call)
      ((Parser.form keyword inner).eval input.withoutGaps call') := by
  have hless : Run.Follows (ν := ν) input 1 (Run.literal input "<")
      (Run.literal input.withoutGaps "<") := literal (by decide) (by decide)
  have hgreater : Run.Follows (ν := ν) input 1 (Run.literal input ">")
      (Run.literal input.withoutGaps ">") := literal (by decide) (by decide)
  have hbrackets := (hless.both (h.both hgreater)).map fun v => v.2.1
  exact (((literal hkeyword hne).both hbrackets).map Prod.snd).mono (Nat.le_add_right 1 _)

theorem commaList {item : Parser ν ρ α}
    (h : Run.Follows input n (item.eval input call) (item.eval input.withoutGaps call')) :
    Run.Follows input n ((Parser.commaList item).eval input call)
      ((Parser.commaList item).eval input.withoutGaps call') := by
  have hcomma : Run.Follows input 1 (Parser.comma.eval input call)
      (Parser.comma.eval input.withoutGaps call') := comma
  have hround := (hcomma.andThen fun _ => h).mono (Nat.le_add_right 1 n)
  refine h.andThen (n := 0) fun head => Run.Follows.map (fun s s' pos hpos hs => ?_) _
  exact hround.repeated [] hpos hs (Nat.lt_succ_self _) (Nat.lt_succ_self _)

theorem choice {ps : List (Parser ν ρ α)} (h : ∀ p ∈ ps,
      Run.Follows input n (p.eval input call) (p.eval input.withoutGaps call')) :
    Run.Follows input n ((Parser.choice ps).eval input call)
      ((Parser.choice ps).eval input.withoutGaps call') := by
  induction ps with
  | nil => exact giveUp
  | cons p ps ih =>
    have hmore := ih fun q hq => h q (List.mem_cons_of_mem p hq)
    exact (h p List.mem_cons_self).recover (hmore.recover giveUp)

end

end Run.Follows

/-! ### Whole texts -/

/-- The same report of another text. -/
def ParseError.mapOffset (f : Nat → Nat) : ParseError → ParseError
  | .unexpected offset expected found => .unexpected (f offset) expected found
  | .tooDeep offset bound => .tooDeep (f offset) bound
  | .exhausted offset => .exhausted (f offset)

theorem State.Moved.error {s s' : State ν} (h : s.Moved input s') :
    s'.error input.withoutGaps = (s.error input).mapOffset input.moved := by
  unfold State.error
  rw [h.tooDeepAt]
  cases s.tooDeepAt with
  | some offset => rfl
  | none =>
    simp [ParseError.mapOffset, State.listed, h.expected, h.furthest, h.settled.getElem?_moved]

end StreamTypes.Peg
