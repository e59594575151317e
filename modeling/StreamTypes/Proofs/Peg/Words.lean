import Mathlib.Order.CompletePartialOrder
import StreamTypes.Proofs.Peg.Tracking

/-!
# The texts of an expression

Which texts an expression may read is read off its parts, given the texts of the rules:
a choice may read what either alternative reads, a list what its rounds read, and so on.
In the same way one obtains the texts that may stand in front of the position at which
the depth bound is exceeded. Ordered choice and greedy options only ever read less.

## Main definitions

- `Parser.words` — the texts that an expression may read
- `Parser.overruns` — the texts in front of an excess of depth, where some more forms
  may be nested
- `Run.Spells` — a run reads such texts only

## Main statements

- `Parser.eval_spells` — the run of an expression, given the rules
- `Parser.callWithin_spells` — the run of a rule
-/

namespace StreamTypes.Peg

open Computability

variable {ν α β : Type} {ρ : Type → Type}

namespace Parser

variable (W : ∀ {α : Type}, ρ α → Language Char) (O : ∀ {α : Type}, ρ α → Nat → Language Char)

/-- The texts that an expression may read, where `W` holds those of the rules. -/
def words : ∀ {α : Type}, Parser ν ρ α → Language Char
  | _, .pure _ | _, .endOfInput => 1
  | _, .fail => 0
  | _, .literal text => {text.toList}
  | _, .unsigned => numerals
  | _, .blanks => gaps
  | _, .both first second => words first * words second
  | _, .orElse first second => words first + words second
  | _, .opt body => words body + 1
  | _, .sepBy1 item separator => words item * (words separator * words item)∗
  | _, .map _ body | _, .nested body | _, .alloc _ body => words body
  | _, .ref rule => W rule

/-- The texts that may stand in front of an excess of depth where the given number of
forms may be nested, with those of the rules in `O`. -/
def overruns : ∀ {α : Type}, Parser ν ρ α → Nat → Language Char
  | _, .both first second, n => overruns first n + words W first * overruns second n
  | _, .orElse first second, n => overruns first n + overruns second n
  | _, .opt body, n | _, .map _ body, n | _, .alloc _ body, n => overruns body n
  | _, .sepBy1 item separator, n =>
    overruns item n + words W item * ((words W separator * words W item)∗ *
      (overruns separator n + words W separator * overruns item n))
  | _, .nested _, 0 => 1
  | _, .nested body, n + 1 => overruns body n
  | _, .ref rule, n => O rule n
  | _, .pure _, _ | _, .fail, _ | _, .literal _, _ | _, .unsigned, _ | _, .blanks, _
  | _, .endOfInput, _ => 0

end Parser

/-- A text of the language stands between two positions. -/
def Input.Spans (input : Input) (K : Language Char) (pos next : Nat) : Prop :=
  ∃ w ∈ K, w <+: input.rest pos ∧ next = pos + w.length

/-- A run from a state without an excess of depth reads a text of `K` and restores the
depth, or it exceeds the depth bound behind a text of `D`, at the number of forms that
may still be nested. -/
def Run.Spells (input : Input) (K : Language Char) (D : Nat → Language Char) (run : Run ν α) :
    Prop :=
  ∀ s pos, s.tooDeepAt = none → run.Ensures s pos
    ⟨fun _ next s' => input.Spans K pos next ∧ s'.depth = s.depth ∧ s'.tooDeepAt = none,
      fun s' => s'.depth = s.depth ∧ s'.tooDeepAt = none,
      fun s' => ∃ q, s'.tooDeepAt = some q ∧
        input.Spans (D (input.maxDepth - s.depth).toNat) pos q,
      True⟩

namespace Input.Spans

variable {input : Input} {K K' : Language Char} {pos mid next : Nat}

theorem mono (h : input.Spans K pos next) (hK : K ≤ K') : input.Spans K' pos next := by
  obtain ⟨w, hw, hrest⟩ := h
  exact ⟨w, hK hw, hrest⟩

theorem refl (input : Input) (pos : Nat) : input.Spans 1 pos pos :=
  ⟨[], rfl, List.nil_prefix, rfl⟩

theorem mul (h : input.Spans K pos mid) (h' : input.Spans K' mid next) :
    input.Spans (K * K') pos next := by
  obtain ⟨w, hw, ⟨r, hr⟩, rfl⟩ := h
  obtain ⟨w', hw', hprefix, rfl⟩ := h'
  rw [Input.rest_add hr.symm] at hprefix
  refine ⟨w ++ w', Language.append_mem_mul hw hw', ?_, ?_⟩
  · rw [← hr]
    exact (List.prefix_append_right_inj w).2 hprefix
  · rw [List.length_append, Nat.add_assoc]

end Input.Spans

namespace Run.Spells

variable {input : Input} {K K' : Language Char} {D D' : Nat → Language Char}

theorem mono {run : Run ν α} (h : run.Spells input K D) (hK : K ≤ K') (hD : ∀ n, D n ≤ D' n) :
    run.Spells input K' D' := by
  intro s pos hs
  refine (h s pos hs).mono ?_ (fun _ h => h) ?_ id
  · rintro v next s' ⟨hspans, hs'⟩
    exact ⟨hspans.mono hK, hs'⟩
  · rintro s' ⟨q, hq, hspans⟩
    exact ⟨q, hq, hspans.mono (hD _)⟩

theorem yield (value : α) : (Run.yield value : Run ν α).Spells input 1 (fun _ => 0) :=
  fun _ pos hs => ⟨.refl input pos, rfl, hs⟩

theorem record {s : State ν} (hs : s.tooDeepAt = none) (pos : Nat) (e : Expectation) :
    (s.record pos e).depth = s.depth ∧ (s.record pos e).tooDeepAt = none :=
  ⟨s.depth_record pos e, (s.tooDeepAt_record pos e).trans hs⟩

theorem andThen {first : Run ν α} {next : α → Run ν β} (hfirst : first.Spells input K D)
    (hnext : ∀ a, (next a).Spells input K' D') :
    (first.andThen next).Spells input (K * K') (fun n => D n + K * D' n) := by
  intro s pos hs
  rw [Run.ensures_andThen]
  refine (hfirst s pos hs).mono ?_ (fun _ h => h) ?_ id
  · rintro a mid s' ⟨hspans, hdepth, hs'⟩
    refine (hnext a s' mid hs').mono ?_ ?_ ?_ id
    · rintro b last s'' ⟨hspans', hdepth', hs''⟩
      exact ⟨hspans.mul hspans', hdepth'.trans hdepth, hs''⟩
    · exact fun s'' h => ⟨h.1.trans hdepth, h.2⟩
    · rintro s'' ⟨q, hq, hspans'⟩
      rw [hdepth] at hspans'
      exact ⟨q, hq, (hspans.mul hspans').mono le_sup_right⟩
  · rintro s' ⟨q, hq, hspans⟩
    exact ⟨q, hq, hspans.mono le_sup_left⟩

theorem map {run : Run ν α} (h : run.Spells input K D) (f : α → β) :
    (run.andThen fun v => Run.yield (f v)).Spells input K D := by
  have hmap := h.andThen fun v => yield (f v)
  simpa only [mul_one, mul_zero, add_zero] using hmap

theorem recover {first second : Run ν α} (hfirst : first.Spells input K D)
    (hsecond : second.Spells input K' D') :
    (first.recover second).Spells input (K + K') (fun n => D n + D' n) := by
  intro s pos hs
  rw [Run.ensures_recover]
  refine (hfirst s pos hs).mono ?_ ?_ ?_ id
  · rintro a next s' ⟨hspans, hs'⟩
    exact ⟨hspans.mono le_sup_left, hs'⟩
  · rintro s' ⟨hdepth, hs'⟩
    have hdepth : (s'.truncate s.arena.size).depth = s.depth := hdepth
    have hrun := hsecond (s'.truncate s.arena.size) pos hs'
    rw [hdepth] at hrun
    refine hrun.mono ?_ (fun _ h => h) ?_ id
    · rintro b last s'' ⟨hspans, hs''⟩
      exact ⟨hspans.mono le_sup_right, hs''⟩
    · rintro s'' ⟨q, hq, hspans⟩
      exact ⟨q, hq, hspans.mono le_sup_right⟩
  · rintro s' ⟨q, hq, hspans⟩
    exact ⟨q, hq, hspans.mono le_sup_left⟩

theorem giveUp : (Run.giveUp : Run ν α).Spells input 0 (fun _ => 0) :=
  fun _ _ hs => ⟨rfl, hs⟩

theorem optional {body : Run ν α} (h : body.Spells input K D) :
    (Run.optional body).Spells input (K + 1) D := by
  have hoptional := (h.map some).recover (yield none)
  simp only [add_zero] at hoptional
  exact hoptional

theorem repeated {step : Run ν α} (h : step.Spells input K D) (rounds : Nat) (values : List α) :
    Run.Spells input K∗ (fun n => K∗ * D n) (Run.repeated step rounds values) := by
  induction rounds generalizing values with
  | zero => exact fun _ _ _ => trivial
  | succ rounds ih =>
    intro s pos hs
    rw [Run.ensures_repeated_succ]
    refine (h s pos hs).mono ?_ ?_ ?_ id
    · rintro a mid s' ⟨hspans, hdepth, hs'⟩
      have hmore := ih (a :: values) s' mid hs'
      rw [hdepth] at hmore
      refine hmore.mono ?_ (fun _ h => h) ?_ id
      · rintro as last s'' ⟨hspans', hs''⟩
        exact ⟨(hspans.mul hspans').mono mul_kstar_le_kstar, hs''⟩
      · rintro s'' ⟨q, hq, hspans'⟩
        have hround := hspans.mul hspans'
        rw [← mul_assoc] at hround
        exact ⟨q, hq, hround.mono (mul_le_mul_left mul_kstar_le_kstar _)⟩
    · rintro s' ⟨hdepth, hs'⟩
      exact ⟨(Input.Spans.refl input pos).mono one_le_kstar, hdepth, hs'⟩
    · rintro s' ⟨q, hq, hspans⟩
      refine ⟨q, hq, hspans.mono ?_⟩
      exact le_mul_of_one_le_left' one_le_kstar

theorem deeper {body : Run ν α} (h : body.Spells input K D) :
    (Run.deeper input.maxDepth body).Spells input K
      (fun n => match n with | 0 => 1 | n + 1 => D n) := by
  intro s pos hs
  rw [Run.ensures_deeper]
  split
  · next hle =>
    have hroom : (input.maxDepth - s.depth).toNat = 0 := by omega
    refine ⟨pos, ?_, ?_⟩
    · rw [State.recordDepth, hs]
      rfl
    · rw [hroom]
      exact .refl input pos
  · next hlt =>
    have hroom : (input.maxDepth - s.depth).toNat = (input.maxDepth - (s.depth + 1)).toNat + 1 := by
      omega
    refine (h s.enter pos hs).mono ?_ ?_ ?_ id
    · exact fun v next s' h => ⟨h.1, State.depth_leave h.2.1, h.2.2⟩
    · exact fun s' h => ⟨State.depth_leave h.1, h.2⟩
    · rintro s' ⟨q, hq, hspans⟩
      refine ⟨q, hq, ?_⟩
      rw [hroom]
      exact hspans

end Run.Spells

namespace Parser

variable {input : Input} {call : ∀ {α : Type}, ρ α → Run ν α}
  {W : ∀ {α : Type}, ρ α → Language Char} {O : ∀ {α : Type}, ρ α → Nat → Language Char}

/-- An expression reads its texts, given that the rules read theirs. -/
theorem eval_spells
    (hcall : ∀ {α : Type} (rule : ρ α), (call rule).Spells input (W rule) (O rule))
    {α : Type} (p : Parser ν ρ α) :
    (p.eval input call).Spells input (p.words W) (p.overruns W O) := by
  induction p with
  | pure value => exact .yield value
  | fail => exact .giveUp
  | literal text =>
    intro s pos hs
    rw [eval_literal, Run.ensures_literal]
    split
    · next h => exact ⟨⟨_, rfl, h.2, rfl⟩, rfl, hs⟩
    · exact Run.Spells.record hs pos _
  | unsigned =>
    intro s pos hs
    rw [eval_unsigned, Run.ensures_unsigned]
    dsimp only
    split
    · exact Run.Spells.record hs pos _
    · next hne =>
      split
      · exact Run.Spells.record hs pos _
      · next hlength =>
        refine ⟨⟨_, ⟨_, hne, Nat.not_lt.1 hlength, ?_, rfl⟩, ?_, rfl⟩, rfl, hs⟩
        · exact mem_of_takeWhile_eq rfl
        · exact List.takeWhile_prefix _
  | blanks =>
    intro s pos hs
    rw [eval_blanks, Run.ensures_blanks]
    exact ⟨⟨_, mem_of_takeWhile_eq rfl, List.takeWhile_prefix _, rfl⟩, rfl, hs⟩
  | endOfInput =>
    intro s pos hs
    rw [eval_endOfInput, Run.ensures_endOfInput]
    split
    · exact ⟨.refl input pos, rfl, hs⟩
    · exact Run.Spells.record hs pos _
  | both first second ih₁ ih₂ => exact ih₁.andThen fun a => ih₂.map fun b => (a, b)
  | orElse first second ih₁ ih₂ =>
    have hchoice := ih₁.recover (ih₂.recover .giveUp)
    simp only [add_zero] at hchoice
    exact hchoice
  | opt body ih => exact ih.optional
  | sepBy1 item separator ih₁ ih₂ =>
    refine ih₁.andThen fun head s pos hs => ?_
    have hround : ((separator.eval input call).andThen fun _ => item.eval input call).Spells input
        (separator.words W * item.words W)
        (fun n => separator.overruns W O n + separator.words W * item.overruns W O n) :=
      ih₂.andThen fun _ => ih₁
    exact ((hround.repeated _ []).map fun tail => (head, tail)) s pos hs
  | map f body ih => exact ih.map f
  | nested body ih =>
    refine ih.deeper.mono le_rfl fun n => ?_
    cases n <;> exact le_rfl
  | alloc build body ih =>
    intro s pos hs
    rw [ensures_alloc]
    exact ih s pos hs
  | ref rule => exact hcall rule

variable {rules : Rules ν ρ}

/-- The rules read the given texts if this is right for their expressions. -/
theorem callWithin_spells
    (hrules : ∀ {α : Type} (rule : ρ α), (rules rule).words W ≤ W rule ∧
      ∀ n, (rules rule).overruns W O n ≤ O rule n)
    (limit : Nat) {α : Type} (rule : ρ α) :
    (callWithin input rules limit rule).Spells input (W rule) (O rule) := by
  induction limit generalizing α rule with
  | zero => exact fun _ _ _ => trivial
  | succ limit ih =>
    rw [callWithin_succ]
    exact (eval_spells ih (rules rule)).mono (hrules rule).1 (hrules rule).2

theorem words_choice_le {ps : List (Parser ν ρ α)} {K : Language Char}
    (h : ∀ p ∈ ps, p.words W ≤ K) : (choice ps).words W ≤ K := by
  induction ps with
  | nil => exact bot_le
  | cons p ps ih =>
    exact sup_le (h p List.mem_cons_self) (ih fun q hq => h q (List.mem_cons_of_mem p hq))

theorem mem_words_form {keyword : String} {inner : Parser ν ρ α} {w : List Char} :
    w ∈ (form keyword inner).words W ↔
      ∃ b ∈ inner.words W, keyword.toList ++ '<' :: (b ++ ['>']) = w := by
  constructor
  · intro hw
    obtain ⟨_, rfl, _, hw', rfl⟩ := Language.mem_mul.1 hw
    obtain ⟨_, rfl, _, hw'', rfl⟩ := Language.mem_mul.1 hw'
    obtain ⟨b, hb, _, rfl, rfl⟩ := Language.mem_mul.1 hw''
    exact ⟨b, hb, rfl⟩
  · rintro ⟨b, hb, rfl⟩
    refine Language.append_mem_mul rfl (Language.append_mem_mul (a := ['<']) rfl ?_)
    exact Language.append_mem_mul hb rfl

end Parser

end StreamTypes.Peg
