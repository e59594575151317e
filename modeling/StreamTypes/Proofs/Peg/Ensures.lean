import StreamTypes.Proofs.Peg.Position

/-!
# What a run ensures

A run ends in one of four ways. `Run.Ensures` says of a run from a given state and
position that, however it ends, what is claimed of that ending holds. Every
combinator turns such a claim into claims about its parts, which is stated as an
equivalence for each of them, so a claim about a grammar can be taken apart along
the grammar and put together again.

## Main definitions

- `Ending` — one claim for each way of ending
- `Run.Ensures` — the claim that belongs to the actual ending holds

## Main statements

- `Run.Ensures.mono` — a claim may be weakened
- `Run.ensures_andThen`, `Run.ensures_recover` — sequences and ordered choice
- `Parser.eval_both` and the following — which run belongs to an expression
-/

namespace StreamTypes.Peg

variable {ν α β : Type} {ρ : Type → Type}

/-! ### States -/

namespace State

variable (s : State ν) (pos : Nat) (e : Expectation)

@[simp] theorem depth_record : (s.record pos e).depth = s.depth := by
  unfold record
  split
  · rfl
  · split <;> rfl

@[simp] theorem arena_record : (s.record pos e).arena = s.arena := by
  unfold record
  split
  · rfl
  · split <;> rfl

@[simp] theorem tooDeepAt_record : (s.record pos e).tooDeepAt = s.tooDeepAt := by
  unfold record
  split
  · rfl
  · split <;> rfl

variable {s} in
/-- What keeps the depth one level further in keeps it altogether. -/
theorem depth_leave {s' : State ν} (h : s'.depth = s.enter.depth) :
    s'.leave.depth = s.depth := by
  change s'.depth - 1 = s.depth
  rw [h]
  exact Int.add_sub_cancel s.depth 1

end State

/-! ### Endings -/

/-- One claim for each way in which a run may end. -/
structure Ending (ν α : Type) where
  /-- What holds of the value, the next position and the state after a match. -/
  accepted : α → Nat → State ν → Prop
  /-- What holds of the state when there is no match. -/
  backtracked : State ν → Prop
  /-- What holds of the state when the depth bound is exceeded. -/
  tooDeep : State ν → Prop
  /-- What holds when references are nested beyond the limit. -/
  exhausted : Prop

/-- However the run from a state and a position ends, the claim about that ending
holds. -/
def Run.Ensures (run : Run ν α) (s : State ν) (pos : Nat) (post : Ending ν α) : Prop :=
  match run s pos with
  | (.accepted value next, s') => post.accepted value next s'
  | (.backtracked _, s') => post.backtracked s'
  | (.tooDeep _, s') => post.tooDeep s'
  | (.exhausted, _) => post.exhausted

namespace Run

variable {run : Run ν α} {s s' : State ν} {pos next : Nat} {value : α}

/-- A claim may be weakened. -/
theorem Ensures.mono {post post' : Ending ν α} (h : run.Ensures s pos post)
    (haccepted : ∀ value next s', post.accepted value next s' → post'.accepted value next s')
    (hbacktracked : ∀ s', post.backtracked s' → post'.backtracked s')
    (htooDeep : ∀ s', post.tooDeep s' → post'.tooDeep s')
    (hexhausted : post.exhausted → post'.exhausted) : run.Ensures s pos post' := by
  unfold Ensures at *
  split <;> simp_all

/-- Two claims about one run hold together. -/
theorem Ensures.and {post post' : Ending ν α} (h : run.Ensures s pos post)
    (h' : run.Ensures s pos post') :
    run.Ensures s pos ⟨fun v next s' => post.accepted v next s' ∧ post'.accepted v next s',
      fun s' => post.backtracked s' ∧ post'.backtracked s',
      fun s' => post.tooDeep s' ∧ post'.tooDeep s', post.exhausted ∧ post'.exhausted⟩ := by
  unfold Ensures at *
  split <;> simp_all

theorem Ensures.of_accepted {post : Ending ν α} (h : run.Ensures s pos post)
    (hrun : run s pos = (.accepted value next, s')) : post.accepted value next s' := by
  rwa [Ensures, hrun] at h

theorem Ensures.of_backtracked {post : Ending ν α} {failedAt : Nat}
    (h : run.Ensures s pos post) (hrun : run s pos = (.backtracked failedAt, s')) :
    post.backtracked s' := by
  rwa [Ensures, hrun] at h

theorem Ensures.of_tooDeep {post : Ending ν α} {failedAt : Nat}
    (h : run.Ensures s pos post) (hrun : run s pos = (.tooDeep failedAt, s')) :
    post.tooDeep s' := by
  rwa [Ensures, hrun] at h

theorem Ensures.of_exhausted {post : Ending ν α} (h : run.Ensures s pos post)
    (hrun : run s pos = (.exhausted, s')) : post.exhausted := by
  rwa [Ensures, hrun] at h

variable (s : State ν) (pos : Nat)

/-! ### Combinators -/

@[simp] theorem ensures_yield (value : α) (post : Ending ν α) :
    (yield value : Run ν α).Ensures s pos post ↔ post.accepted value pos s :=
  Iff.rfl

@[simp] theorem ensures_giveUp (post : Ending ν α) :
    (giveUp : Run ν α).Ensures s pos post ↔ post.backtracked s :=
  Iff.rfl

@[simp] theorem ensures_missing (e : Expectation) (post : Ending ν α) :
    (missing e : Run ν α).Ensures s pos post ↔ post.backtracked (s.record pos e) :=
  Iff.rfl

/-- A sequence ensures what its second part ensures wherever the first one ends. -/
@[simp] theorem ensures_andThen (first : Run ν α) (next : α → Run ν β) (post : Ending ν β) :
    (first.andThen next).Ensures s pos post ↔
      first.Ensures s pos ⟨fun v mid s' => (next v).Ensures s' mid post, post.backtracked,
        post.tooDeep, post.exhausted⟩ := by
  simp only [Ensures, andThen]
  cases first s pos with
  | mk outcome s' => cases outcome <;> rfl

/-- In an ordered choice the second part starts over at the same position, without
the nodes of the first one. -/
@[simp] theorem ensures_recover (first second : Run ν α) (post : Ending ν α) :
    (first.recover second).Ensures s pos post ↔
      first.Ensures s pos ⟨post.accepted,
        fun s' => second.Ensures (s'.truncate s.arena.size) pos post, post.tooDeep,
        post.exhausted⟩ := by
  simp only [Ensures, recover]
  cases first s pos with
  | mk outcome s' => cases outcome <;> rfl

@[simp] theorem ensures_optional (body : Run ν α) (post : Ending ν (Option α)) :
    (optional body).Ensures s pos post ↔
      body.Ensures s pos ⟨fun v => post.accepted (some v),
        fun s' => post.accepted none pos (s'.truncate s.arena.size), post.tooDeep,
        post.exhausted⟩ := by
  simp [optional]

theorem ensures_repeated_zero (step : Run ν α) (values : List α)
    (post : Ending ν (List α)) :
    Ensures (repeated step 0 values) s pos post ↔ post.exhausted :=
  Iff.rfl

theorem ensures_repeated_succ (step : Run ν α) (rounds : Nat) (values : List α)
    (post : Ending ν (List α)) :
    Ensures (repeated step (rounds + 1) values) s pos post ↔
      step.Ensures s pos
        ⟨fun v next s' => Ensures (repeated step rounds (v :: values)) s' next post,
          fun s' => post.accepted values.reverse pos (s'.truncate s.arena.size), post.tooDeep,
          post.exhausted⟩ := by
  -- a round is an optional step, whose absence ends the list
  change Ensures ((optional step).andThen _) s pos post ↔ _
  rw [ensures_andThen, ensures_optional]
  exact Iff.rfl

@[simp] theorem ensures_deeper (maxDepth : Int) (body : Run ν α) (post : Ending ν α) :
    (deeper maxDepth body).Ensures s pos post ↔
      if maxDepth ≤ s.depth then post.tooDeep (s.recordDepth pos)
      else body.Ensures s.enter pos
        ⟨fun v next s' => post.accepted v next s'.leave, fun s' => post.backtracked s'.leave,
          fun s' => post.tooDeep s'.leave, post.exhausted⟩ := by
  by_cases h : maxDepth ≤ s.depth
  · simp [Ensures, deeper, h]
  · simp only [Ensures, deeper, h, if_false]
    cases body s.enter pos with
    | mk outcome s' => cases outcome <;> rfl

/-! ### Primitives -/

variable (input : Input)

theorem ensures_literal (text : String) (post : Ending ν String) :
    (literal input text).Ensures s pos post ↔
      if pos ≤ input.text.size ∧ text.toList <+: input.rest pos
      then post.accepted text (pos + text.toList.length) s
      else post.backtracked (s.record pos (.literal text)) := by
  rw [String.length_toList]
  by_cases h : pos ≤ input.text.size ∧ text.toList <+: input.rest pos
  · simp only [Ensures, literal, if_pos h, if_pos (holdsAt_iff.2 h)]
  · simp only [Ensures, literal, if_neg h, if_neg (mt holdsAt_iff.1 h)]
    rfl

theorem ensures_unsigned (post : Ending ν Nat) :
    (unsigned input).Ensures s pos post ↔
      let digits := (input.rest pos).takeWhile Char.isDigit
      if digits = [] then post.backtracked (s.record pos .unsigned)
      else if Text.numeralLimit < digits.length then
        post.backtracked (s.record pos .shorterUnsigned)
      else post.accepted (Text.digitsValue digits) (pos + digits.length) s := by
  simp only [Ensures, unsigned, spanAt_eq, List.isEmpty_iff]
  by_cases hnone : (input.rest pos).takeWhile Char.isDigit = []
  · simp only [if_pos hnone]
    rfl
  · simp only [if_neg hnone]
    by_cases hlong : Text.numeralLimit < ((input.rest pos).takeWhile Char.isDigit).length
    · simp only [if_pos hlong]
      rfl
    · simp only [if_neg hlong]

@[simp] theorem ensures_blanks (post : Ending ν String) :
    (blanks input).Ensures s pos post ↔
      post.accepted (String.ofList ((input.rest pos).takeWhile isGap))
        (pos + ((input.rest pos).takeWhile isGap).length) s := by
  simp only [Ensures, blanks, spanAt_eq]

theorem ensures_endOfInput (post : Ending ν Unit) :
    (endOfInput input).Ensures s pos post ↔
      if pos = input.text.size then post.accepted () pos s
      else post.backtracked (s.record pos .endOfInput) := by
  by_cases h : pos = input.text.size
  · simp [Ensures, endOfInput, h]
  · simp only [Ensures, endOfInput, h, if_false]
    rfl

end Run

namespace Parser

variable (input : Input) (call : ∀ {α : Type}, ρ α → Run ν α)

/-! ### The run of an expression -/

@[simp] theorem eval_literal (text : String) :
    (literal text : Parser ν ρ String).eval input call = Run.literal input text :=
  rfl

@[simp] theorem eval_unsigned :
    (unsigned : Parser ν ρ Nat).eval input call = Run.unsigned input :=
  rfl

@[simp] theorem eval_blanks :
    (blanks : Parser ν ρ String).eval input call = Run.blanks input :=
  rfl

@[simp] theorem eval_endOfInput :
    (endOfInput : Parser ν ρ Unit).eval input call = Run.endOfInput input :=
  rfl

@[simp] theorem eval_both (first : Parser ν ρ α) (second : Parser ν ρ β) :
    (first.both second).eval input call =
      (first.eval input call).andThen fun a =>
        (second.eval input call).andThen fun b => Run.yield (a, b) :=
  rfl

@[simp] theorem eval_orElse (first second : Parser ν ρ α) :
    (first.orElse second).eval input call =
      (first.eval input call).recover ((second.eval input call).recover Run.giveUp) :=
  rfl

@[simp] theorem eval_opt (body : Parser ν ρ α) :
    body.opt.eval input call = Run.optional (body.eval input call) :=
  rfl

@[simp] theorem eval_map (f : α → β) (body : Parser ν ρ α) :
    (body.map f).eval input call = (body.eval input call).andThen fun v => Run.yield (f v) :=
  rfl

@[simp] theorem eval_nested (body : Parser ν ρ α) :
    body.nested.eval input call = Run.deeper input.maxDepth (body.eval input call) :=
  rfl

@[simp] theorem eval_ref (rule : ρ α) :
    (ref rule : Parser ν ρ α).eval input call = call rule :=
  rfl

theorem ensures_alloc (build : α → ν) (body : Parser ν ρ α) (s : State ν) (pos : Nat)
    (post : Ending ν Nat) :
    ((body.alloc build).eval input call).Ensures s pos post ↔
      (body.eval input call).Ensures s pos
        ⟨fun v next s' => post.accepted s'.arena.size next (s'.push (build v)),
          post.backtracked, post.tooDeep, post.exhausted⟩ := by
  rw [eval, Run.ensures_andThen]
  exact Iff.rfl

theorem ensures_sepBy1 (item : Parser ν ρ α) (separator : Parser ν ρ β) (s : State ν)
    (pos : Nat) (post : Ending ν (α × List α)) :
    ((item.sepBy1 separator).eval input call).Ensures s pos post ↔
      (item.eval input call).Ensures s pos
        ⟨fun head next s' =>
          Run.Ensures (Run.repeated ((separator.eval input call).andThen fun _ =>
              item.eval input call) (input.text.size - next + 1) []) s' next
            ⟨fun tail => post.accepted (head, tail), post.backtracked, post.tooDeep,
              post.exhausted⟩,
          post.backtracked, post.tooDeep, post.exhausted⟩ := by
  rw [eval, Run.ensures_andThen]
  -- the second claim stands under the match on the ending of the first item
  simp only [Run.Ensures]
  cases item.eval input call s pos with
  | mk outcome s' =>
    cases outcome with
    | accepted head next =>
      exact Run.ensures_andThen s' next _ _ _
    | backtracked | tooDeep | exhausted => rfl

/-- A form is a keyword, a bracket, what stands inside, and another bracket. -/
theorem ensures_form (keyword : String) (inner : Parser ν ρ α) (s : State ν) (pos : Nat)
    (post : Ending ν α) :
    ((form keyword inner).eval input call).Ensures s pos post ↔
      (Run.literal input keyword).Ensures s pos
        ⟨fun _ p₁ s₁ => (Run.literal input "<").Ensures s₁ p₁
          ⟨fun _ p₂ s₂ => (inner.eval input call).Ensures s₂ p₂
            ⟨fun v p₃ s₃ => (Run.literal input ">").Ensures s₃ p₃
              ⟨fun _ p₄ s₄ => post.accepted v p₄ s₄, post.backtracked, post.tooDeep,
                post.exhausted⟩, post.backtracked, post.tooDeep, post.exhausted⟩,
            post.backtracked, post.tooDeep, post.exhausted⟩,
          post.backtracked, post.tooDeep, post.exhausted⟩ := by
  simp only [form, preceded, delimited, eval_map, eval_both, eval_literal, Run.ensures_andThen,
    Run.ensures_yield]

/-- Where the first expression of a choice does not match, the other ones are tried
without its nodes. -/
theorem ensures_choice_cons (p : Parser ν ρ α) (ps : List (Parser ν ρ α)) (s : State ν)
    (pos : Nat) (post : Ending ν α) :
    ((choice (p :: ps)).eval input call).Ensures s pos post ↔
      (p.eval input call).Ensures s pos
        ⟨post.accepted,
          fun s' => ((choice ps).eval input call).Ensures (s'.truncate s.arena.size) pos
            ⟨post.accepted,
              fun s'' => post.backtracked (s''.truncate (s'.truncate s.arena.size).arena.size),
              post.tooDeep, post.exhausted⟩,
          post.tooDeep, post.exhausted⟩ := by
  simp only [choice, eval_orElse, Run.ensures_recover, Run.ensures_giveUp]

/-! ### References -/

/-- The run of a rule when at most `limit` references are nested, the one to the rule
included. -/
def callWithin (input : Input) (rules : Rules ν ρ) (limit : Nat) {α : Type} (rule : ρ α) :
    Run ν α :=
  (ref rule).evalWithin input rules limit

variable (rules : Rules ν ρ)

theorem evalWithin_eq (limit : Nat) (p : Parser ν ρ α) :
    p.evalWithin input rules limit = p.eval input (callWithin input rules limit) := by
  cases limit <;> rfl

theorem callWithin_succ (limit : Nat) (rule : ρ α) :
    callWithin input rules (limit + 1) rule =
      (rules rule).eval input (callWithin input rules limit) :=
  evalWithin_eq input rules limit (rules rule)

end Parser

end StreamTypes.Peg
