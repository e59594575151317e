import StreamTypes.Proofs.Peg.Termination

/-!
# The characters that are read

A run reads what the literals of a grammar spell, digits, and blanks behind commas. So a position
that it reaches, and one that it reports, lies behind such characters only. This holds of texts that
do not match, too, and whatever stands in them further on.

## Main definitions

- `Parser.spells` — the characters of all literals belong to a class
- `Input.Reached` — a position behind characters of a class
- `State.Within` — all positions that are noted are such positions

## Main statements

- `Parser.eval_within` — what a run reads belongs to the class
- `run_error_reached` — so do the characters in front of an error
-/

namespace StreamTypes.Peg

variable {ν : Type} {ρ : Type → Type} {inClass : Char → Bool} {input : Input}

/-- The characters of all literals in the expression belong to a class. -/
def Parser.spells (inClass : Char → Bool) : ∀ {α : Type}, Parser ν ρ α → Bool
  | _, .literal text => text.toList.all inClass
  | _, .both first second => first.spells inClass && second.spells inClass
  | _, .orElse first second => first.spells inClass && second.spells inClass
  | _, .opt body => body.spells inClass
  | _, .sepBy1 item separator => item.spells inClass && separator.spells inClass
  | _, .map _ body => body.spells inClass
  | _, .nested body => body.spells inClass
  | _, .alloc _ body => body.spells inClass
  | _, .pure _ | _, .fail | _, .unsigned | _, .blanks | _, .endOfInput | _, .ref _ => true

/-- The digits and the blanks that may follow a comma belong to a class. -/
structure HasDigitsAndGaps (inClass : Char → Bool) : Prop where
  digit : ∀ c, c.isDigit = true → inClass c = true
  gap : ∀ c, isGap c = true → inClass c = true

/-! ### Positions -/

/-- A position in the text behind characters of a class. -/
def Input.Reached (input : Input) (inClass : Char → Bool) (pos : Nat) : Prop :=
  pos ≤ input.text.size ∧ ∀ c ∈ input.before pos, inClass c = true

theorem Input.reached_zero : input.Reached inClass 0 :=
  ⟨Nat.zero_le _, by simp [before]⟩

theorem Input.Reached.add {pos : Nat} {w r : List Char} (h : input.Reached inClass pos)
    (hw : ∀ c ∈ w, inClass c = true) (hrest : input.rest pos = w ++ r) :
    input.Reached inClass (pos + w.length) := by
  refine ⟨Input.add_le_size h.1 hrest, ?_⟩
  rw [Input.before_add hrest]
  exact List.forall_mem_append.2 ⟨h.2, hw⟩

/-- All positions that are noted are behind characters of a class. -/
structure State.Within (s : State ν) (input : Input) (inClass : Char → Bool) : Prop where
  furthest : input.Reached inClass s.furthest
  tooDeepAt : ∀ pos ∈ s.tooDeepAt, input.Reached inClass pos

namespace State.Within

variable {s : State ν} {pos : Nat}

theorem start : ({} : State ν).Within input inClass :=
  ⟨Input.reached_zero, nofun⟩

theorem record (h : s.Within input inClass) (hpos : input.Reached inClass pos)
    (expectation : Expectation) : (s.record pos expectation).Within input inClass := by
  refine ⟨?_, by simpa using h.tooDeepAt⟩
  unfold State.record
  split
  · exact hpos
  · split <;> exact h.furthest

theorem recordDepth (h : s.Within input inClass) (hpos : input.Reached inClass pos) :
    (s.recordDepth pos).Within input inClass := by
  refine ⟨h.furthest, fun q hq => ?_⟩
  unfold State.recordDepth at hq
  cases hnoted : s.tooDeepAt with
  | none =>
    rw [hnoted] at hq
    cases hq
    exact hpos
  | some noted =>
    rw [hnoted] at hq
    cases hq
    exact h.tooDeepAt _ hnoted

theorem error (h : s.Within input inClass) : input.Reached inClass (s.error input).offset := by
  unfold State.error
  split
  · rename_i hnoted
    exact h.tooDeepAt _ hnoted
  · exact h.furthest

end State.Within

/-! ### Runs -/

/-- Whatever the run reads or notes is behind characters of a class. -/
def Ending.within (ν α : Type) (input : Input) (inClass : Char → Bool) : Ending ν α :=
  ⟨fun _ next s => input.Reached inClass next ∧ s.Within input inClass,
    fun s => s.Within input inClass, fun s => s.Within input inClass, True⟩

theorem Run.repeated_within {α : Type} {step : Run ν α}
    (hstep : ∀ s pos, s.Within input inClass → input.Reached inClass pos →
      step.Ensures s pos (Ending.within ν α input inClass))
    (rounds : Nat) (values : List α) (s : State ν) (pos : Nat) (hs : s.Within input inClass)
    (hpos : input.Reached inClass pos) :
    Ensures (repeated step rounds values) s pos (Ending.within ν (List α) input inClass) := by
  induction rounds generalizing values s pos with
  | zero => trivial
  | succ rounds ih =>
    rw [ensures_repeated_succ]
    refine (hstep s pos hs hpos).mono ?_ ?_ (fun _ h => h) id
    · rintro v next s' ⟨hnext, hs'⟩
      exact ih (v :: values) s' next hs' hnext
    · intro s' hs'
      exact ⟨hpos, hs'.furthest, hs'.tooDeepAt⟩

namespace Parser

variable {call : ∀ {α : Type}, ρ α → Run ν α}

/-- A run reads characters of a class only, provided that this holds of the rules it refers to. -/
theorem eval_within (hclass : HasDigitsAndGaps inClass)
    (hcall : ∀ {α : Type} (rule : ρ α) (s : State ν) (pos : Nat), s.Within input inClass →
      input.Reached inClass pos → (call rule).Ensures s pos (Ending.within ν α input inClass))
    {α : Type} (p : Parser ν ρ α) (s : State ν) (pos : Nat) (hs : s.Within input inClass)
    (hpos : input.Reached inClass pos) (hspells : p.spells inClass = true) :
    (p.eval input call).Ensures s pos (Ending.within ν α input inClass) := by
  induction p generalizing s pos with
  | pure v => exact ⟨hpos, hs⟩
  | fail => exact hs
  | literal text =>
    rw [eval_literal, Run.ensures_literal]
    split
    · next h =>
      obtain ⟨r, hr⟩ := h.2
      exact ⟨hpos.add (List.all_eq_true.1 hspells) hr.symm, hs⟩
    · exact hs.record hpos _
  | unsigned =>
    rw [eval_unsigned, Run.ensures_unsigned]
    obtain ⟨r, hr⟩ := List.takeWhile_prefix (l := input.rest pos) Char.isDigit
    have hdigits : ∀ c ∈ (input.rest pos).takeWhile Char.isDigit, c.isDigit = true :=
      mem_of_takeWhile_eq rfl
    dsimp only
    split
    · exact hs.record hpos _
    · split
      · exact hs.record hpos _
      · exact ⟨hpos.add (fun c hc => hclass.digit c (hdigits c hc)) hr.symm, hs⟩
  | blanks =>
    rw [eval_blanks, Run.ensures_blanks]
    obtain ⟨r, hr⟩ := List.takeWhile_prefix (l := input.rest pos) isGap
    have hgaps : ∀ c ∈ (input.rest pos).takeWhile isGap, isGap c = true :=
      mem_of_takeWhile_eq rfl
    exact ⟨hpos.add (fun c hc => hclass.gap c (hgaps c hc)) hr.symm, hs⟩
  | endOfInput =>
    rw [eval_endOfInput, Run.ensures_endOfInput]
    split
    · exact ⟨hpos, hs⟩
    · exact hs.record hpos _
  | both first second ih₁ ih₂ =>
    simp only [spells, Bool.and_eq_true] at hspells
    rw [eval_both, Run.ensures_andThen]
    refine (ih₁ s pos hs hpos hspells.1).mono ?_ (fun _ h => h) (fun _ h => h) id
    rintro v mid s' ⟨hmid, hs'⟩
    simp only [Run.ensures_andThen, Run.ensures_yield]
    exact ih₂ s' mid hs' hmid hspells.2
  | orElse first second ih₁ ih₂ =>
    simp only [spells, Bool.and_eq_true] at hspells
    rw [eval_orElse, Run.ensures_recover]
    refine (ih₁ s pos hs hpos hspells.1).mono (fun _ _ _ h => h) ?_ (fun _ h => h) id
    intro s' hs'
    simp only [Run.ensures_recover, Run.ensures_giveUp]
    refine (ih₂ (s'.truncate _) pos ⟨hs'.furthest, hs'.tooDeepAt⟩ hpos hspells.2).mono
      (fun _ _ _ h => h) ?_ (fun _ h => h) id
    exact fun s'' hs'' => ⟨hs''.furthest, hs''.tooDeepAt⟩
  | opt body ih =>
    rw [eval_opt, Run.ensures_optional]
    refine (ih s pos hs hpos hspells).mono (fun _ _ _ h => h) ?_ (fun _ h => h) id
    exact fun s' hs' => ⟨hpos, hs'.furthest, hs'.tooDeepAt⟩
  | sepBy1 item separator ih₁ ih₂ =>
    simp only [spells, Bool.and_eq_true] at hspells
    rw [ensures_sepBy1]
    refine (ih₁ s pos hs hpos hspells.1).mono ?_ (fun _ h => h) (fun _ h => h) id
    rintro v next s' ⟨hnext, hs'⟩
    refine Run.repeated_within (fun s₁ pos₁ hs₁ hpos₁ => ?_) _ [] s' next hs' hnext
    rw [Run.ensures_andThen]
    refine (ih₂ s₁ pos₁ hs₁ hpos₁ hspells.2).mono ?_ (fun _ h => h) (fun _ h => h) id
    rintro _ mid s₂ ⟨hmid, hs₂⟩
    exact ih₁ s₂ mid hs₂ hmid hspells.1
  | map f body ih =>
    rw [eval_map, Run.ensures_andThen]
    exact ih s pos hs hpos hspells
  | nested body ih =>
    rw [eval_nested, Run.ensures_deeper]
    split
    · exact hs.recordDepth hpos
    · refine (ih s.enter pos ⟨hs.furthest, hs.tooDeepAt⟩ hpos hspells).mono ?_ ?_ ?_ id
      · exact fun _ _ s' h => ⟨h.1, h.2.furthest, h.2.tooDeepAt⟩
      · exact fun s' h => ⟨h.furthest, h.tooDeepAt⟩
      · exact fun s' h => ⟨h.furthest, h.tooDeepAt⟩
  | alloc build body ih =>
    rw [ensures_alloc]
    refine (ih s pos hs hpos hspells).mono ?_ (fun _ h => h) (fun _ h => h) id
    exact fun _ _ s' h => ⟨h.1, h.2.furthest, h.2.tooDeepAt⟩
  | ref rule => exact hcall rule s pos hs hpos

theorem callWithin_within {rules : Rules ν ρ} (hclass : HasDigitsAndGaps inClass)
    (hrules : ∀ {α : Type} (rule : ρ α), (rules rule).spells inClass = true)
    (limit : Nat) {α : Type} (rule : ρ α) (s : State ν) (pos : Nat)
    (hs : s.Within input inClass) (hpos : input.Reached inClass pos) :
    (callWithin input rules limit rule).Ensures s pos (Ending.within ν α input inClass) := by
  induction limit generalizing α rule s pos with
  | zero => trivial
  | succ limit ih =>
    rw [callWithin_succ]
    exact eval_within hclass (fun rule s pos hs hpos => ih rule s pos hs hpos) (rules rule) s pos
      hs hpos (hrules rule)

end Parser

/-- An error is reported behind characters that the grammar reads, if there is room for all
references. -/
theorem run_error_reached {rules : Rules ν ρ} {limit : Nat} {α : Type} {p : Parser ν ρ α}
    {e : ParseError} (hclass : HasDigitsAndGaps inClass)
    (hrules : ∀ {α : Type} (rule : ρ α), (rules rule).spells inClass = true)
    (hp : p.spells inClass = true) (h : run limit rules p input = .error e)
    (hexhausted : ∀ offset, e ≠ .exhausted offset) : input.Reached inClass e.offset := by
  have hends : ((p.terminated .endOfInput).evalWithin input rules limit).Ensures {} 0
      (Ending.within ν α input inClass) := by
    rw [Parser.evalWithin_eq]
    exact Parser.eval_within hclass
      (fun rule => Parser.callWithin_within hclass hrules limit rule) _ {} 0 .start
      Input.reached_zero (by simpa [Parser.terminated, Parser.spells] using hp)
  rw [run] at h
  cases hrun : (p.terminated .endOfInput).evalWithin input rules limit {} 0 with
  | mk outcome s =>
    rw [hrun] at h
    cases outcome with
    | accepted => cases h
    | backtracked =>
      cases h
      exact (hends.of_backtracked hrun).error
    | tooDeep =>
      cases h
      exact (hends.of_tooDeep hrun).error
    | exhausted =>
      cases h
      exact (hexhausted _ rfl).elim

end StreamTypes.Peg
