import StreamTypes.Proofs.Peg.Ensures

/-!
# Comparing two runs

Two kinds of comparison go along every expression. Raising the depth bound, or the limit
on nested references, changes no run but those that the lower bound or limit has ended:
nothing catches such an ending. And runs from two states at the same depth end alike,
whatever the states hold otherwise; the values are equal, too, if the states hold equally
many nodes.

## Main definitions

- `Run.AgreesUnless` — one run is like another one unless it is ended by a bound
- `Alike`, `Run.Uniform` — runs from states at the same depth end alike

## Main statements

- `Parser.eval_agreesUnless` — raising the bound or the limit
- `Parser.evalWithin_of_le` — a run that ends within a limit ends so within a higher one
- `Parser.evalWithin_uniform` — starting from another state
-/

namespace StreamTypes.Peg

variable {ν α β : Type} {ρ : Type → Type}

/-! ### Raising a bound -/

/-- The two bounds that end a run for good. -/
inductive Bound where
  | depth
  | references
  deriving DecidableEq, Repr

/-- The run has been ended by the bound. -/
def Outcome.EndedBy (bound : Bound) : Outcome α → Prop
  | .tooDeep _ => bound = .depth
  | .exhausted => bound = .references
  | .accepted _ _ | .backtracked _ => False

namespace Run

/-- Unless the bound ends the first run, the second one does the same. -/
def AgreesUnless (bound : Bound) (run run' : Run ν α) : Prop :=
  ∀ s pos, (run s pos).1.EndedBy bound ∨ run' s pos = run s pos

namespace AgreesUnless

variable {bound : Bound}

theorem refl (run : Run ν α) : AgreesUnless bound run run :=
  fun _ _ => .inr rfl

theorem andThen {first first' : Run ν α} {next next' : α → Run ν β}
    (hfirst : AgreesUnless bound first first')
    (hnext : ∀ v, AgreesUnless bound (next v) (next' v)) :
    AgreesUnless bound (first.andThen next) (first'.andThen next') := by
  intro s pos
  simp only [Run.andThen]
  rcases hfirst s pos with hended | heq
  · cases hrun : first s pos with
    | mk outcome s' =>
      rw [hrun] at hended
      cases outcome with
      | accepted | backtracked => exact hended.elim
      | tooDeep | exhausted => exact .inl hended
  · rw [heq]
    cases first s pos with
    | mk outcome s' =>
      cases outcome with
      | accepted v mid => exact hnext v s' mid
      | backtracked | tooDeep | exhausted => exact .inr rfl

theorem recover {first first' second second' : Run ν α}
    (hfirst : AgreesUnless bound first first') (hsecond : AgreesUnless bound second second') :
    AgreesUnless bound (first.recover second) (first'.recover second') := by
  intro s pos
  simp only [Run.recover]
  rcases hfirst s pos with hended | heq
  · cases hrun : first s pos with
    | mk outcome s' =>
      rw [hrun] at hended
      cases outcome with
      | accepted | backtracked => exact hended.elim
      | tooDeep | exhausted => exact .inl hended
  · rw [heq]
    cases first s pos with
    | mk outcome s' =>
      cases outcome with
      | backtracked => exact hsecond _ pos
      | accepted | tooDeep | exhausted => exact .inr rfl

theorem optional {body body' : Run ν α} (h : AgreesUnless bound body body') :
    AgreesUnless bound (Run.optional body) (Run.optional body') :=
  (h.andThen fun _ => refl _).recover (refl _)

theorem repeated {step step' : Run ν α} (h : AgreesUnless bound step step') (rounds : Nat)
    (values : List α) :
    AgreesUnless bound (Run.repeated step rounds values) (Run.repeated step' rounds values) := by
  induction rounds generalizing values with
  | zero => exact refl _
  | succ rounds ih =>
    refine h.optional.andThen fun value => ?_
    cases value with
    | none => exact refl _
    | some value => exact ih (value :: values)

theorem deeper {body body' : Run ν α} {maxDepth maxDepth' : Int}
    (h : AgreesUnless bound body body') (hle : maxDepth ≤ maxDepth')
    (hbound : bound = .depth ∨ maxDepth' = maxDepth) :
    AgreesUnless bound (Run.deeper maxDepth body) (Run.deeper maxDepth' body') := by
  intro s pos
  simp only [Run.deeper]
  by_cases hdepth : maxDepth ≤ s.depth
  · rw [if_pos hdepth]
    rcases hbound with rfl | rfl
    · exact .inl rfl
    · rw [if_pos hdepth]
      exact .inr rfl
  · have hdepth' : ¬ maxDepth' ≤ s.depth := fun h => hdepth (Int.le_trans hle h)
    rw [if_neg hdepth, if_neg hdepth']
    rcases h s.enter pos with hended | heq
    · exact .inl hended
    · rw [heq]
      exact .inr rfl

end AgreesUnless

end Run

namespace Parser

variable {input input' : Input} {call call' : ∀ {α : Type}, ρ α → Run ν α} {bound : Bound}

/-- Raising the bound for an expression, given that this changes no rule. -/
theorem eval_agreesUnless (htext : input'.text = input.text)
    (hle : input.maxDepth ≤ input'.maxDepth)
    (hbound : bound = .depth ∨ input'.maxDepth = input.maxDepth)
    (hcall : ∀ {α : Type} (rule : ρ α), Run.AgreesUnless bound (call rule) (call' rule))
    {α : Type} (p : Parser ν ρ α) :
    Run.AgreesUnless bound (p.eval input call) (p.eval input' call') := by
  -- the primitives look at the text only
  cases input
  cases input'
  cases htext
  induction p with
  | pure | fail | literal | unsigned | blanks | endOfInput => exact .refl _
  | both first second ih₁ ih₂ => exact ih₁.andThen fun _ => ih₂.andThen fun _ => .refl _
  | orElse first second ih₁ ih₂ => exact ih₁.recover (ih₂.recover (.refl _))
  | opt body ih => exact ih.optional
  | sepBy1 item separator ih₁ ih₂ =>
    refine ih₁.andThen fun head s pos => ?_
    exact ((ih₂.andThen fun _ => ih₁).repeated _ []).andThen (fun _ => .refl _) s pos
  | map f body ih => exact ih.andThen fun _ => .refl _
  | nested body ih => exact ih.deeper hle hbound
  | alloc build body ih => exact ih.andThen fun _ => .refl _
  | ref rule => exact hcall rule

variable (rules : Rules ν ρ)

theorem evalWithin_succ (limit : Nat) {α : Type} (p : Parser ν ρ α) :
    Run.AgreesUnless .references (p.evalWithin input rules limit)
      (p.evalWithin input rules (limit + 1)) := by
  induction limit generalizing α p with
  | zero =>
    have hcall : ∀ {α : Type} (rule : ρ α), Run.AgreesUnless .references
        (fun s _ => (.exhausted, s)) ((rules rule).evalWithin input rules 0) :=
      fun _ _ _ => .inl rfl
    exact eval_agreesUnless rfl (Int.le_refl _) (.inr rfl) hcall p
  | succ limit ih =>
    exact eval_agreesUnless rfl (Int.le_refl _) (.inr rfl) (fun rule => ih (rules rule)) p

/-- A run that ends within a limit ends in the same way within a higher one. -/
theorem evalWithin_of_le {limit limit' : Nat} (hle : limit ≤ limit') {p : Parser ν ρ α}
    {s : State ν} {pos : Nat} (h : (p.evalWithin input rules limit s pos).1 ≠ .exhausted) :
    p.evalWithin input rules limit' s pos = p.evalWithin input rules limit s pos := by
  induction hle with
  | refl => rfl
  | @step limit' _ ih =>
    rcases evalWithin_succ rules limit' p s pos with hended | heq
    · rw [ih] at hended
      cases houtcome : (p.evalWithin input rules limit s pos).1 with
      | exhausted => exact (h houtcome).elim
      | accepted | backtracked =>
        rw [houtcome] at hended
        exact hended.elim
      | tooDeep =>
        rw [houtcome] at hended
        cases hended
    · rw [heq, ih]

end Parser

/-! ### Starting from another state -/

/-- The states are at the same depth and, in the case of `same`, hold equally many nodes. -/
structure State.Level (same : Prop) (s t : State ν) : Prop where
  depth : s.depth = t.depth
  stored : same → s.arena.size = t.arena.size

/-- Two runs end alike and, in the case of `same`, with the same value. -/
inductive Alike (same : Prop) : Outcome α × State ν → Outcome α × State ν → Prop
  | accepted {v w : α} {next : Nat} {s t : State ν} :
      (same → v = w) → s.Level same t → Alike same (.accepted v next, s) (.accepted w next, t)
  | backtracked {failedAt : Nat} {s t : State ν} :
      s.Level same t → Alike same (.backtracked failedAt, s) (.backtracked failedAt, t)
  | tooDeep {failedAt : Nat} {s t : State ν} :
      Alike same (.tooDeep failedAt, s) (.tooDeep failedAt, t)
  | exhausted {s t : State ν} : Alike same (.exhausted, s) (.exhausted, t)

theorem Alike.outcome {x y : Outcome α × State ν} (h : Alike True x y) : y.1 = x.1 := by
  cases h with
  | accepted hvalue => rw [hvalue trivial]
  | backtracked | tooDeep | exhausted => rfl

namespace State.Level

variable {same : Prop} {s t s' t' : State ν}

theorem truncate (h : s.Level same t) (h' : s'.Level same t') :
    (s'.truncate s.arena.size).Level same (t'.truncate t.arena.size) := by
  refine ⟨h'.depth, fun hsame => ?_⟩
  rw [State.truncate, State.truncate, Array.size_shrink, Array.size_shrink, h.stored hsame,
    h'.stored hsame]

theorem record (h : s.Level same t) (pos : Nat) (e : Expectation) :
    (s.record pos e).Level same (t.record pos e) := by
  refine ⟨?_, fun hsame => ?_⟩
  · rw [s.depth_record, t.depth_record, h.depth]
  · rw [s.arena_record, t.arena_record, h.stored hsame]

end State.Level

namespace Run

theorem repeated_succ (step : Run ν α) (rounds : Nat) (values : List α) (s : State ν)
    (pos : Nat) :
    repeated step (rounds + 1) values s pos =
      match step s pos with
      | (.accepted value next, s') => repeated step rounds (value :: values) s' next
      | (.backtracked _, s') => (.accepted values.reverse pos, s'.truncate s.arena.size)
      | (.tooDeep failedAt, s') => (.tooDeep failedAt, s')
      | (.exhausted, s') => (.exhausted, s') := by
  simp only [repeated, optional, recover, andThen]
  cases step s pos with
  | mk outcome s' => cases outcome <;> rfl

/-- The run ends alike from any two states at the same depth. -/
def Uniform (same : Prop) (run : Run ν α) : Prop :=
  ∀ s t pos, s.Level same t → Alike same (run s pos) (run t pos)

end Run

namespace Alike

variable {same : Prop} {s t : State ν} {pos : Nat}

theorem yield {v w : α} (hvalue : same → v = w) (h : s.Level same t) :
    Alike same (Run.yield v s pos) (Run.yield w t pos) :=
  .accepted hvalue h

theorem missing (e : Expectation) (h : s.Level same t) :
    Alike same ((Run.missing e : Run ν α) s pos) ((Run.missing e : Run ν α) t pos) :=
  .backtracked (h.record pos e)

theorem andThen {first : Run ν α} {next next' : α → Run ν β}
    (hfirst : Alike same (first s pos) (first t pos))
    (hnext : ∀ v w, (same → v = w) → ∀ s t pos, s.Level same t →
      Alike same (next v s pos) (next' w t pos)) :
    Alike same (first.andThen next s pos) (first.andThen next' t pos) := by
  simp only [Run.andThen]
  generalize first s pos = x at hfirst
  generalize first t pos = y at hfirst
  cases hfirst with
  | accepted hvalue h => exact hnext _ _ hvalue _ _ _ h
  | backtracked h => exact .backtracked h
  | tooDeep => exact .tooDeep
  | exhausted => exact .exhausted

theorem recover {first second : Run ν α} (h : s.Level same t)
    (hfirst : Alike same (first s pos) (first t pos)) (hsecond : Run.Uniform same second) :
    Alike same (first.recover second s pos) (first.recover second t pos) := by
  simp only [Run.recover]
  generalize first s pos = x at hfirst
  generalize first t pos = y at hfirst
  cases hfirst with
  | accepted hvalue h' => exact .accepted hvalue h'
  | backtracked h' => exact hsecond _ _ pos (h.truncate h')
  | tooDeep => exact .tooDeep
  | exhausted => exact .exhausted

end Alike

namespace Run.Uniform

variable {same : Prop}

theorem giveUp : Uniform same (Run.giveUp : Run ν α) :=
  fun _ _ _ h => .backtracked h

theorem recover {first second : Run ν α} (hfirst : Uniform same first)
    (hsecond : Uniform same second) : Uniform same (first.recover second) :=
  fun s t pos h => .recover h (hfirst s t pos h) hsecond

theorem map {first : Run ν α} (h : Uniform same first) (f : α → β) :
    Uniform same (first.andThen fun v => Run.yield (f v)) := by
  intro s t pos hlevel
  refine .andThen (h s t pos hlevel) fun v w hvalue s t pos hlevel => ?_
  exact .yield (fun hsame => congrArg f (hvalue hsame)) hlevel

theorem optional {body : Run ν α} (h : Uniform same body) :
    Uniform same (Run.optional body) :=
  (h.map some).recover fun _ _ _ h => .yield (fun _ => rfl) h

theorem repeated {step : Run ν α} (h : Uniform same step) (rounds : Nat) (values : List α) :
    Uniform same (Run.repeated step rounds values) := by
  -- the values of the rounds may differ, so the two runs have lists of their own
  have hlists : ∀ rounds (vs ws : List α), (same → vs = ws) → ∀ s t pos, s.Level same t →
      Alike same (Run.repeated step rounds vs s pos) (Run.repeated step rounds ws t pos) := by
    intro rounds
    induction rounds with
    | zero => exact fun _ _ _ _ _ _ _ => .exhausted
    | succ rounds ih =>
      intro vs ws hvalues s t pos hlevel
      have hround := h s t pos hlevel
      rw [repeated_succ, repeated_succ]
      generalize step s pos = x at hround
      generalize step t pos = y at hround
      cases hround with
      | accepted hvalue h' =>
        exact ih _ _ (fun hsame => by rw [hvalue hsame, hvalues hsame]) _ _ _ h'
      | backtracked h' =>
        exact .accepted (fun hsame => by rw [hvalues hsame]) (hlevel.truncate h')
      | tooDeep => exact .tooDeep
      | exhausted => exact .exhausted
  exact hlists rounds values values fun _ => rfl

theorem deeper {body : Run ν α} (h : Uniform same body) (maxDepth : Int) :
    Uniform same (Run.deeper maxDepth body) := by
  intro s t pos hlevel
  simp only [Run.deeper, hlevel.depth]
  split
  · exact .tooDeep
  · have henter : s.enter.Level same t.enter :=
      ⟨congrArg (· + 1) hlevel.depth, hlevel.stored⟩
    have hleave : ∀ {s' t' : State ν}, s'.Level same t' → s'.leave.Level same t'.leave :=
      fun h' => ⟨congrArg (· - 1) h'.depth, h'.stored⟩
    have hrun := h s.enter t.enter pos henter
    generalize body s.enter pos = x at hrun
    generalize body t.enter pos = y at hrun
    cases hrun with
    | accepted hvalue h' => exact .accepted hvalue (hleave h')
    | backtracked h' => exact .backtracked (hleave h')
    | tooDeep => exact .tooDeep
    | exhausted => exact .exhausted

end Run.Uniform

namespace Parser

variable {input : Input} {call : ∀ {α : Type}, ρ α → Run ν α} {same : Prop}

theorem eval_uniform (hcall : ∀ {α : Type} (rule : ρ α), Run.Uniform same (call rule))
    {α : Type} (p : Parser ν ρ α) : Run.Uniform same (p.eval input call) := by
  induction p with
  | pure value => exact fun _ _ _ h => .yield (fun _ => rfl) h
  | fail => exact Run.Uniform.giveUp
  | literal text =>
    intro s t pos h
    simp only [eval_literal, Run.literal]
    split
    · exact .accepted (fun _ => rfl) h
    · exact .missing _ h
  | unsigned =>
    intro s t pos h
    simp only [eval_unsigned, Run.unsigned]
    split
    · exact .missing _ h
    · split
      · exact .missing _ h
      · exact .accepted (fun _ => rfl) h
  | blanks => exact fun _ _ _ h => .accepted (fun _ => rfl) h
  | endOfInput =>
    intro s t pos h
    simp only [eval_endOfInput, Run.endOfInput]
    split
    · exact .accepted (fun _ => rfl) h
    · exact .missing _ h
  | both first second ih₁ ih₂ =>
    intro s t pos h
    refine .andThen (ih₁ s t pos h) fun a a' ha s t pos h => ?_
    refine .andThen (ih₂ s t pos h) fun b b' hb s t pos h => ?_
    exact .yield (fun hsame => by rw [ha hsame, hb hsame]) h
  | orElse first second ih₁ ih₂ => exact ih₁.recover (ih₂.recover .giveUp)
  | opt body ih => exact ih.optional
  | sepBy1 item separator ih₁ ih₂ =>
    intro s t pos h
    have hround : Run.Uniform same ((separator.eval input call).andThen fun _ =>
        item.eval input call) :=
      fun s t pos h => .andThen (ih₂ s t pos h) fun _ _ _ => ih₁
    refine .andThen (ih₁ s t pos h) fun a a' ha s t pos h => ?_
    refine .andThen (hround.repeated _ [] s t pos h) fun as as' has s t pos h => ?_
    exact .yield (fun hsame => by rw [ha hsame, has hsame]) h
  | map f body ih => exact ih.map f
  | nested body ih => exact ih.deeper _
  | alloc build body ih =>
    intro s t pos h
    refine .andThen (ih s t pos h) fun a a' ha s t pos h => ?_
    refine .accepted h.stored ⟨h.depth, fun hsame => ?_⟩
    rw [State.push, State.push, Array.size_push, Array.size_push, h.stored hsame]
  | ref rule => exact hcall rule

/-- Runs from two states at the same depth end alike. -/
theorem evalWithin_uniform (input : Input) (rules : Rules ν ρ) (same : Prop) (limit : Nat)
    {α : Type} (p : Parser ν ρ α) : Run.Uniform same (p.evalWithin input rules limit) := by
  induction limit generalizing α p with
  | zero => exact eval_uniform (fun _ _ _ _ _ => .exhausted) p
  | succ limit ih => exact eval_uniform (fun rule => ih (rules rule)) p

end Parser

end StreamTypes.Peg
