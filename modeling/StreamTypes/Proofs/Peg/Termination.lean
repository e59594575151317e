import StreamTypes.Proofs.Peg.Recursion
import StreamTypes.Peg.Error

/-!
# Termination

A rule that refers to itself before it has read a character would be followed for
ever, and so would a list whose rounds read nothing. Whether either can happen is
read off the expressions. A run that does not come to an end has made a call that
does not, and in a guarded grammar this call is made further on in the text. So no
more nested references are needed than the text has characters, and a parse with
room for them ends with a match or with a position.

## Main definitions

- `Parser.steady` — every round of every list reads at least one character
- `Terminates` — a rule has a result, and calls rules further on only

## Main statements

- `Parser.callsEndless_of_exhausted` — a run that does not end has made a call that does not
- `Parser.callWithin_ne_exhausted` — a rule ends if there is room for all references
- `terminates` — the rules of a guarded grammar terminate at every position
- `run_ne_exhausted` — a parse with room for all references does not run out of it
- `run_ok`, `exists_run_ok` — what a parse gives, from what its run ensures
-/

namespace StreamTypes.Peg

variable {ν α β : Type} {ρ : Type → Type}

/-- Every round of every list in the expression reads at least one character. -/
def Parser.steady : ∀ {α : Type}, Parser ν ρ α → Bool
  | _, .both first second => first.steady && second.steady
  | _, .orElse first second => first.steady && second.steady
  | _, .opt body => body.steady
  | _, .sepBy1 item separator =>
    item.steady && separator.steady && (separator.consumes || item.consumes)
  | _, .map _ body => body.steady
  | _, .nested body => body.steady
  | _, .alloc _ body => body.steady
  | _, .pure _ | _, .fail | _, .literal _ | _, .unsigned | _, .blanks | _, .endOfInput
  | _, .ref _ => true

/-! ### Runs that do not end -/

namespace Run

variable {s : State ν} {pos : Nat}

theorem exhausted_andThen {first : Run ν α} {next : α → Run ν β}
    (h : (first.andThen next s pos).1 = .exhausted) :
    (first s pos).1 = .exhausted ∨
      ∃ value mid s', first s pos = (.accepted value mid, s') ∧
        (next value s' mid).1 = .exhausted := by
  simp only [andThen] at h
  cases hfirst : first s pos with
  | mk outcome s' =>
    rw [hfirst] at h
    cases outcome with
    | accepted value mid => exact .inr ⟨value, mid, s', rfl, h⟩
    | backtracked | tooDeep => cases h
    | exhausted => exact .inl rfl

theorem exhausted_map {run : Run ν α} {f : α → β}
    (h : ((run.andThen fun v => yield (f v)) s pos).1 = .exhausted) :
    (run s pos).1 = .exhausted := by
  rcases exhausted_andThen h with h | ⟨_, _, _, _, h⟩
  · exact h
  · cases h

theorem exhausted_recover {first second : Run ν α}
    (h : (first.recover second s pos).1 = .exhausted) :
    (first s pos).1 = .exhausted ∨
      ∃ failedAt s', first s pos = (.backtracked failedAt, s') ∧
        (second (s'.truncate s.arena.size) pos).1 = .exhausted := by
  simp only [recover] at h
  cases hfirst : first s pos with
  | mk outcome s' =>
    rw [hfirst] at h
    cases outcome with
    | backtracked failedAt => exact .inr ⟨failedAt, s', rfl, h⟩
    | accepted | tooDeep => cases h
    | exhausted => exact .inl rfl

theorem exhausted_optional {body : Run ν α} (h : (optional body s pos).1 = .exhausted) :
    (body s pos).1 = .exhausted := by
  rcases exhausted_recover h with h | ⟨_, _, _, h⟩
  · exact exhausted_map h
  · cases h

theorem exhausted_deeper {maxDepth : Int} {body : Run ν α}
    (h : (deeper maxDepth body s pos).1 = .exhausted) :
    s.depth < maxDepth ∧ (body s.enter pos).1 = .exhausted := by
  simp only [deeper] at h
  split at h
  · cases h
  · next hdepth => exact ⟨Int.not_le.1 hdepth, h⟩

/-- If every round of a list moves on and more rounds are allowed than characters are left, then a
list that does not end has a round that does not. -/
theorem exhausted_repeated {step : Run ν α} {size : Nat} (AtHead : State ν → Nat → Prop)
    (hnext : ∀ t q value next t', AtHead t q → step t q = (.accepted value next, t') →
      AtHead t' next ∧ q < next ∧ next ≤ max q size)
    {rounds : Nat} {values : List α} (hhead : AtHead s pos) (hrounds : size - pos < rounds)
    (h : (repeated step rounds values s pos).1 = .exhausted) :
    ∃ t q, AtHead t q ∧ (step t q).1 = .exhausted := by
  induction rounds generalizing values s pos with
  | zero => omega
  | succ rounds ih =>
    rw [repeated_succ] at h
    cases hstep : step s pos with
    | mk outcome s' =>
      rw [hstep] at h
      cases outcome with
      | accepted value next =>
        obtain ⟨hhead', hlt, hle⟩ := hnext s pos value next s' hhead hstep
        exact ih hhead' (by omega) h
      | backtracked | tooDeep => cases h
      | exhausted => exact ⟨s, pos, hhead, by rw [hstep]⟩

end Run

/-! ### Calls that do not end -/

namespace Parser

variable {input : Input} {rules : Rules ν ρ} {limit : Nat} {s : State ν} {pos : Nat}

/-- The run of the expression has made a call that does not come to an end. -/
def CallsEndless (input : Input) (rules : Rules ν ρ) (limit : Nat) (p : Parser ν ρ α) (s : State ν)
    (pos : Nat) : Prop :=
  ∃ (γ : Type) (callee : ρ γ) (t : State ν) (q : Nat),
    Calls input (callWithin input rules limit) callee t q p s pos ∧
      (callWithin input rules limit callee t q).1 = .exhausted

theorem CallsEndless.imp {p : Parser ν ρ α} {p' : Parser ν ρ β} {s' : State ν} {pos' : Nat}
    (h : CallsEndless input rules limit p s pos)
    (himp : ∀ {γ : Type} {callee : ρ γ} {t : State ν} {q : Nat},
      Calls input (callWithin input rules limit) callee t q p s pos →
        Calls input (callWithin input rules limit) callee t q p' s' pos') :
    CallsEndless input rules limit p' s' pos' := by
  obtain ⟨γ, callee, t, q, hcalls, hexhausted⟩ := h
  exact ⟨γ, callee, t, q, himp hcalls, hexhausted⟩

theorem callsEndless_both {first : Parser ν ρ α} {second : Parser ν ρ β}
    (hfirst : ∀ {s : State ν} {pos : Nat},
      (first.eval input (callWithin input rules limit) s pos).1 = .exhausted →
        CallsEndless input rules limit first s pos)
    (hsecond : ∀ {s : State ν} {pos : Nat},
      (second.eval input (callWithin input rules limit) s pos).1 = .exhausted →
        CallsEndless input rules limit second s pos)
    (h : ((first.both second).eval input (callWithin input rules limit) s pos).1 = .exhausted) :
    CallsEndless input rules limit (first.both second) s pos := by
  rcases Run.exhausted_andThen h with h | ⟨a, mid, s', hrun, h⟩
  · exact (hfirst h).imp .bothFirst
  · exact (hsecond (Run.exhausted_map h)).imp (.bothSecond hrun)

/-- A run that does not come to an end has made a call that does not, if every round of every list
reads a character. -/
theorem callsEndless_of_exhausted {p : Parser ν ρ α} (hsteady : p.steady = true)
    (h : (p.eval input (callWithin input rules limit) s pos).1 = .exhausted) :
    CallsEndless input rules limit p s pos := by
  induction p generalizing s pos with
  | pure | fail | blanks => cases h
  | literal text =>
    simp only [eval_literal, Run.literal] at h
    split at h <;> cases h
  | unsigned =>
    simp only [eval_unsigned, Run.unsigned] at h
    split at h
    · cases h
    · split at h <;> cases h
  | endOfInput =>
    simp only [eval_endOfInput, Run.endOfInput] at h
    split at h <;> cases h
  | both first second ih₁ ih₂ =>
    obtain ⟨hsteady₁, hsteady₂⟩ := Bool.and_eq_true_iff.1 hsteady
    exact callsEndless_both (ih₁ hsteady₁) (ih₂ hsteady₂) h
  | orElse first second ih₁ ih₂ =>
    obtain ⟨hsteady₁, hsteady₂⟩ := Bool.and_eq_true_iff.1 hsteady
    rcases Run.exhausted_recover h with h | ⟨failedAt, s', hfirst, h⟩
    · exact (ih₁ hsteady₁ h).imp .orElseFirst
    · rcases Run.exhausted_recover h with h | ⟨_, _, _, h⟩
      · exact (ih₂ hsteady₂ h).imp (.orElseSecond hfirst)
      · cases h
  | opt body ih => exact (ih hsteady (Run.exhausted_optional h)).imp .opt
  | sepBy1 item separator ih₁ ih₂ =>
    simp only [steady, Bool.and_eq_true] at hsteady
    obtain ⟨⟨hitem, hseparator⟩, hrounds⟩ := hsteady
    rcases Run.exhausted_andThen h with h | ⟨a, mid, s', hfirst, h⟩
    · exact (ih₁ hitem h).imp .sepBy1First
    · -- the list ends unless one of its rounds does not
      rw [← eval_preceded] at h
      have hconsumes : (separator.preceded item).consumes = true := hrounds
      obtain ⟨t, q, hround, hexhausted⟩ := Run.exhausted_repeated
        (AtRound input (callWithin input rules limit) item separator s pos)
        (fun t q b next t' hround hstep =>
          ⟨.next hround hstep, (eval_next hstep).2.2 hconsumes, (eval_next hstep).2.1⟩)
        (.first hfirst) (Nat.lt_succ_self _) (Run.exhausted_map h)
      exact (callsEndless_both (ih₂ hseparator) (ih₁ hitem) (Run.exhausted_map hexhausted)).imp
        fun hcalls => .sepBy1Round hround (.map hcalls)
  | map f body ih => exact (ih hsteady (Run.exhausted_map h)).imp .map
  | nested body ih =>
    obtain ⟨hdepth, h⟩ := Run.exhausted_deeper h
    exact (ih hsteady h).imp (.nested hdepth)
  | alloc build body ih =>
    rcases Run.exhausted_andThen h with h | ⟨_, _, _, _, h⟩
    · exact (ih hsteady h).imp .alloc
    · cases h
  | ref rule => exact ⟨_, rule, s, pos, .ref, h⟩

/-- The rules of a guarded grammar come to an end if there is room for one reference more than there
are characters left, since each call leaves fewer of them. -/
theorem callWithin_ne_exhausted
    (hrules : ∀ {α : Type} (rule : ρ α), (rules rule).steady = true ∧ (rules rule).guarded = true)
    (rule : ρ α) (s : State ν) (pos : Nat) (hlimit : input.text.size - pos < limit) :
    (callWithin input rules limit rule s pos).1 ≠ .exhausted := by
  induction limit generalizing α rule s pos with
  | zero => omega
  | succ limit ih =>
    intro h
    rw [callWithin_succ] at h
    obtain ⟨γ, callee, t, q, hcalls, hexhausted⟩ := callsEndless_of_exhausted (hrules rule).1 h
    have hlt := hcalls.pos_lt (hrules rule).2
    have hle := hcalls.le_pos
    exact ih callee t q (by omega) hexhausted

end Parser

/-! ### Rules and parses that end -/

/-- A rule terminates: it has a result, every run of it that may nest more references than there are
characters left shows this result, and it calls rules further on in the text only. -/
structure Terminates (input : Input) (rules : Rules ν ρ) (rule : ρ α) (s : State ν) (pos : Nat) :
    Prop where
  result : ∃ result, Means input rules (.ref rule) (s.place pos) result ∧
    ∀ limit, input.text.size - pos < limit →
      result.Shown s ((Parser.ref rule).evalWithin input rules limit s pos)
  calls : ∀ (limit : Nat) {γ : Type} (callee : ρ γ) (t : State ν) (q : Nat),
    Parser.Calls input (Parser.callWithin input rules limit) callee t q (rules rule) s pos →
      pos < q ∧ q ≤ input.text.size

/-- The rules of a guarded grammar terminate at every position. -/
theorem terminates (input : Input) {rules : Rules ν ρ}
    (hrules : ∀ {α : Type} (rule : ρ α), (rules rule).steady = true ∧ (rules rule).guarded = true)
    (rule : ρ α) (s : State ν) (pos : Nat) : Terminates input rules rule s pos := by
  refine ⟨?_, fun limit γ callee t q hcalls => ?_⟩
  · have hends : ∀ limit, input.text.size - pos < limit →
        ((Parser.ref rule).evalWithin input rules limit s pos).1 ≠ .exhausted :=
      fun limit hlimit => Parser.callWithin_ne_exhausted hrules rule s pos hlimit
    obtain ⟨j, result, hj, -⟩ := (Parser.evalWithin_derives rules (input.text.size - pos + 1)
      (.ref rule) s pos).shown fun h => (hends _ (Nat.lt_succ_self _) h).elim
    exact ⟨result, ⟨j, hj⟩, fun limit hlimit => (hj.shown (hends limit hlimit)).1⟩
  · have hlt := hcalls.pos_lt (hrules rule).2
    have hle := hcalls.le_pos
    omega

/-- A parse of a guarded grammar that may nest more references than the text has
characters does not run out of them. -/
theorem run_ne_exhausted {input : Input} {rules : Rules ν ρ} {limit : Nat} {α : Type}
    {p : Parser ν ρ α}
    (hrules : ∀ {α : Type} (rule : ρ α), (rules rule).steady = true ∧ (rules rule).guarded = true)
    (hsteady : p.steady = true) (hlimit : input.text.size < limit) (offset : Nat) :
    run limit rules p input ≠ .error (.exhausted offset) := by
  rw [run, Parser.evalWithin_eq]
  split
  · nofun
  · next hrun =>
    obtain ⟨γ, callee, t, q, -, hexhausted⟩ := Parser.callsEndless_of_exhausted
      (by simpa [Parser.terminated, Parser.steady] using hsteady) (congrArg Prod.fst hrun)
    exact (Parser.callWithin_ne_exhausted hrules callee t q (by omega) hexhausted).elim
  · next s' _ _ =>
    rw [State.error]
    split <;> nofun

/-! ### What a parse ends with -/

section
variable {α : Type} {limit : Nat} {rules : Rules ν ρ} {p : Parser ν ρ α} {input : Input}

/-- What every run ensures of a match holds of an accepted text. -/
theorem run_ok {post : Ending ν α} {value : α} {s : State ν}
    (h : run limit rules p input = .ok (value, s))
    (hpost : ((p.terminated .endOfInput).evalWithin input rules limit).Ensures {} 0 post) :
    ∃ next, post.accepted value next s := by
  rw [run] at h
  cases hrun : (p.terminated .endOfInput).evalWithin input rules limit {} 0 with
  | mk outcome s' =>
    rw [hrun] at h
    cases outcome with
    | accepted v next =>
      cases h
      exact ⟨next, hpost.of_accepted hrun⟩
    | _ => cases h

/-- A text that is neither given up nor too deep is accepted, if there is room for all
references. -/
theorem exists_run_ok {post : Ending ν α}
    (hpost : ((p.terminated .endOfInput).evalWithin input rules limit).Ensures {} 0 post)
    (hbacktracked : ∀ s, ¬ post.backtracked s) (htooDeep : ∀ s, ¬ post.tooDeep s)
    (hexhausted : ∀ offset, run limit rules p input ≠ .error (.exhausted offset)) :
    ∃ value next s, run limit rules p input = .ok (value, s) ∧ post.accepted value next s := by
  rw [run] at hexhausted ⊢
  cases hrun : (p.terminated .endOfInput).evalWithin input rules limit {} 0 with
  | mk outcome s =>
    rw [hrun] at hexhausted
    cases outcome with
    | accepted value next => exact ⟨value, next, s, rfl, hpost.of_accepted hrun⟩
    | backtracked => exact (hbacktracked s (hpost.of_backtracked hrun)).elim
    | tooDeep => exact (htooDeep s (hpost.of_tooDeep hrun)).elim
    | exhausted => exact (hexhausted _ rfl).elim

theorem run_ne_exhausted_of_ensures {post : Ending ν α}
    (hpost : ((p.terminated .endOfInput).evalWithin input rules limit).Ensures {} 0 post)
    (hexhausted : ¬ post.exhausted) (offset : Nat) :
    run limit rules p input ≠ .error (.exhausted offset) := by
  rw [run]
  cases hrun : (p.terminated .endOfInput).evalWithin input rules limit {} 0 with
  | mk outcome s =>
    cases outcome with
    | exhausted => exact (hexhausted (hpost.of_exhausted hrun)).elim
    | accepted => nofun
    | backtracked | tooDeep =>
      dsimp only
      unfold State.error
      split <;> nofun

end

end StreamTypes.Peg
