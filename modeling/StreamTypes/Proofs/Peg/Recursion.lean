import StreamTypes.Proofs.Peg.Adequacy

/-!
# Recursion

Which rules a run calls, and where. In a guarded grammar a character is read before a rule is
referred to for the first time, and a run does not move back, so a rule is called further on in the
text than the rule that calls it.

## Main definitions

- `Parser.consumes` — a match reads at least one character
- `Parser.guarded` — references stand behind at least one character
- `Parser.AtRound` — where the rounds of a list start
- `Parser.Calls` — where a run calls a rule

## Main statements

- `Derives.advances` — a match of an expression that consumes moves on
- `Parser.eval_next` — where a match ends
- `Parser.Calls.pos_lt` — a guarded expression calls rules further on
-/

namespace StreamTypes.Peg

variable {ν α β : Type} {ρ : Type → Type}

namespace Parser

/-- A match of the expression reads at least one character. -/
def consumes : ∀ {α : Type}, Parser ν ρ α → Bool
  | _, .pure _ => false
  | _, .fail => true
  | _, .literal text => text ≠ ""
  | _, .unsigned => true
  | _, .blanks => false
  | _, .endOfInput => false
  | _, .both first second => first.consumes || second.consumes
  | _, .orElse first second => first.consumes && second.consumes
  | _, .opt _ => false
  | _, .sepBy1 item _ => item.consumes
  | _, .map _ body => body.consumes
  | _, .nested body => body.consumes
  | _, .alloc _ body => body.consumes
  | _, .ref _ => false

/-- At least one character is read before any rule is referred to. -/
def guarded : ∀ {α : Type}, Parser ν ρ α → Bool
  | _, .both first second => first.guarded && (first.consumes || second.guarded)
  | _, .orElse first second => first.guarded && second.guarded
  | _, .opt body => body.guarded
  | _, .sepBy1 item separator => item.guarded && (item.consumes || separator.guarded)
  | _, .map _ body => body.guarded
  | _, .nested body => body.guarded
  | _, .alloc _ body => body.guarded
  | _, .ref _ => false
  | _, .pure _ | _, .fail | _, .literal _ | _, .unsigned | _, .blanks | _, .endOfInput => true

end Parser

/-! ### Runs do not move back -/

section
variable {input : Input} {rules : Rules ν ρ} {limit : Nat} {s s' : State ν} {pos next : Nat}

/-- If a reading ends with a match, then the match reads at least one character. -/
def Result.Advances (result : Result ν α) (pos : Nat) : Prop :=
  ∀ next, result.stop = .inl next → pos < next

theorem Result.advances_halted (halt : Stop) (pos : Nat) :
    (Result.halted halt : Result ν α).Advances pos :=
  nofun

theorem Result.advances_matched {value : α} {nodes : List ν} {length : Nat} (h : length ≠ 0) :
    (Result.matched value (pos + length) nodes).Advances pos := by
  rintro _ ⟨⟩
  exact Nat.lt_add_of_pos_right (Nat.pos_of_ne_zero h)

theorem Parser.length_ne_zero_of_consumes {text : String}
    (h : (literal text : Parser ν ρ String).consumes = true) : text.toList.length ≠ 0 := by
  simpa [consumes] using h

/-- A match of an expression that consumes reads at least one character. -/
theorem Derives.advances {α : Type} {p : Parser ν ρ α} {l : Place} {j : List Event}
    {result : Result ν α} :
    Derives input rules p l j result → p.consumes = true → result.Advances l.pos
  | .literal _, hconsumes => Result.advances_matched (Parser.length_ne_zero_of_consumes hconsumes)
  | .unsigned _ hne _, _ => Result.advances_matched (mt List.length_eq_zero_iff.1 hne)
  | .both h h', hconsumes => fun next hnext => by
    have hmid := (h.confined.next _ rfl).1
    have hlast := (h'.confined.next next hnext).1
    rcases Bool.or_eq_true_iff.1 hconsumes with hfirst | hsecond
    · exact Nat.lt_of_lt_of_le (h.advances hfirst _ rfl) hlast
    · exact Nat.lt_of_le_of_lt hmid (h'.advances hsecond next hnext)
  | .orElse h, hconsumes => h.advances (Bool.and_eq_true_iff.1 hconsumes).1
  | .orElseNext _ h', hconsumes => h'.advances (Bool.and_eq_true_iff.1 hconsumes).2
  | .sepBy1 h h', hconsumes => fun next hnext =>
    Nat.lt_of_lt_of_le (h.advances hconsumes _ rfl) (h'.confined.next next hnext).1
  | .map h, hconsumes => h.advances hconsumes
  | .nested _ h, hconsumes => h.advances hconsumes
  | .alloc h, hconsumes => h.advances hconsumes
  | .fail, _ | .noLiteral _, _ | .noUnsigned _, _ | .longUnsigned _, _ | .noEnd _, _
  | .bothFirst _, _ | .bothSecond _ _, _ | .orElseDeep _, _ | .optDeep _, _ | .sepBy1First _, _
  | .sepBy1Rest _ _, _ | .mapHalted _, _ | .nestedDeep _, _ | .allocHalted _, _ =>
    Result.advances_halted _ _
  | .pure, hconsumes | .blanks _, hconsumes | .endOfInput _, hconsumes | .opt _, hconsumes
  | .optNone _, hconsumes | .ref _, hconsumes => (Bool.false_ne_true hconsumes).elim

/-- A match ends where it started or further on, and not beyond the text unless it started
there. -/
theorem Parser.eval_next {p : Parser ν ρ α} {value : α}
    (hrun : p.eval input (callWithin input rules limit) s pos = (.accepted value next, s')) :
    pos ≤ next ∧ next ≤ max pos input.text.size ∧ (p.consumes = true → pos < next) := by
  rw [← evalWithin_eq] at hrun
  obtain ⟨j, _, hj, hshown, -⟩ := (evalWithin_derives rules limit p s pos).shown fun h => by
    rw [hrun] at h
    cases h
  obtain ⟨nodes, rfl, -⟩ := hshown.of_accepted (congrArg Prod.fst hrun)
  have hnext := hj.confined.next next rfl
  exact ⟨hnext.1, hnext.2, fun hconsumes => hj.advances hconsumes next rfl⟩

end

/-! ### Calls -/

namespace Parser

section
variable (input : Input) (call : ∀ {α : Type}, ρ α → Run ν α)

/-- A list that is read from the first state and position starts a round from the second ones. -/
inductive AtRound {α β : Type} (item : Parser ν ρ α) (separator : Parser ν ρ β) (s : State ν)
    (pos : Nat) : State ν → Nat → Prop
  | first {a : α} {next : Nat} {t : State ν} :
      item.eval input call s pos = (.accepted a next, t) → AtRound item separator s pos t next
  | next {a : α} {t t' : State ν} {q next : Nat} :
      AtRound item separator s pos t q →
      (separator.preceded item).eval input call t q = (.accepted a next, t') →
      AtRound item separator s pos t' next

/-- The run of an expression from a state and a position calls the rule `callee` from the state `t`
and the position `q`. What the called rule calls itself does not count. -/
inductive Calls {γ : Type} (callee : ρ γ) (t : State ν) (q : Nat) :
    {α : Type} → Parser ν ρ α → State ν → Nat → Prop
  | ref : Calls callee t q (.ref callee) t q
  | bothFirst {α β : Type} {first : Parser ν ρ α} {second : Parser ν ρ β} {s : State ν}
      {pos : Nat} :
      Calls callee t q first s pos → Calls callee t q (.both first second) s pos
  | bothSecond {α β : Type} {first : Parser ν ρ α} {second : Parser ν ρ β} {s s' : State ν}
      {pos mid : Nat} {a : α} :
      first.eval input call s pos = (.accepted a mid, s') →
      Calls callee t q second s' mid → Calls callee t q (.both first second) s pos
  | orElseFirst {α : Type} {first second : Parser ν ρ α} {s : State ν} {pos : Nat} :
      Calls callee t q first s pos → Calls callee t q (.orElse first second) s pos
  | orElseSecond {α : Type} {first second : Parser ν ρ α} {s s' : State ν} {pos failedAt : Nat} :
      first.eval input call s pos = (.backtracked failedAt, s') →
      Calls callee t q second (s'.truncate s.arena.size) pos →
      Calls callee t q (.orElse first second) s pos
  | opt {α : Type} {body : Parser ν ρ α} {s : State ν} {pos : Nat} :
      Calls callee t q body s pos → Calls callee t q (.opt body) s pos
  | sepBy1First {α β : Type} {item : Parser ν ρ α} {separator : Parser ν ρ β} {s : State ν}
      {pos : Nat} :
      Calls callee t q item s pos → Calls callee t q (.sepBy1 item separator) s pos
  | sepBy1Round {α β : Type} {item : Parser ν ρ α} {separator : Parser ν ρ β} {s s' : State ν}
      {pos mid : Nat} :
      AtRound input call item separator s pos s' mid →
      Calls callee t q (separator.preceded item) s' mid →
      Calls callee t q (.sepBy1 item separator) s pos
  | map {α β : Type} {f : α → β} {body : Parser ν ρ α} {s : State ν} {pos : Nat} :
      Calls callee t q body s pos → Calls callee t q (.map f body) s pos
  | nested {α : Type} {body : Parser ν ρ α} {s : State ν} {pos : Nat} :
      s.depth < input.maxDepth → Calls callee t q body s.enter pos →
      Calls callee t q (.nested body) s pos
  | alloc {α : Type} {build : α → ν} {body : Parser ν ρ α} {s : State ν} {pos : Nat} :
      Calls callee t q body s pos → Calls callee t q (.alloc build body) s pos

end

variable {input : Input} {rules : Rules ν ρ} {limit : Nat} {s t : State ν} {pos q : Nat}

theorem AtRound.le_next {item : Parser ν ρ α} {separator : Parser ν ρ β}
    (h : AtRound input (callWithin input rules limit) item separator s pos t q) :
    pos ≤ q ∧ q ≤ max pos input.text.size ∧ (item.consumes = true → pos < q) := by
  induction h with
  | first hitem => exact eval_next hitem
  | next _ hround ih =>
    have hnext := eval_next hround
    exact ⟨by omega, by omega, fun hconsumes => by have := ih.2.2 hconsumes; omega⟩

namespace Calls

variable {γ : Type} {callee : ρ γ}

theorem le_pos {p : Parser ν ρ α}
    (h : Calls input (callWithin input rules limit) callee t q p s pos) :
    pos ≤ q ∧ q ≤ max pos input.text.size := by
  induction h with
  | ref => exact ⟨Nat.le_refl _, Nat.le_max_left _ _⟩
  | bothSecond hfirst _ ih =>
    have hmid := eval_next hfirst
    omega
  | sepBy1Round hround _ ih =>
    have hmid := hround.le_next
    omega
  | bothFirst _ ih | orElseFirst _ ih | orElseSecond _ _ ih | opt _ ih | sepBy1First _ ih
  | map _ ih | nested _ _ ih | alloc _ ih => exact ih

/-- A guarded expression reads a character before it calls a rule. -/
theorem pos_lt {p : Parser ν ρ α}
    (h : Calls input (callWithin input rules limit) callee t q p s pos)
    (hguarded : p.guarded = true) : pos < q := by
  induction h with
  | ref => cases hguarded
  | bothFirst _ ih => exact ih (Bool.and_eq_true_iff.1 hguarded).1
  | bothSecond hfirst hsecond ih =>
    have hmid := eval_next hfirst
    have hle := hsecond.le_pos
    -- a first part that reads nothing leaves it to the second one
    rcases Bool.or_eq_true_iff.1 (Bool.and_eq_true_iff.1 hguarded).2 with hconsumes | hguarded
    · have := hmid.2.2 hconsumes
      omega
    · have := ih hguarded
      omega
  | orElseFirst _ ih => exact ih (Bool.and_eq_true_iff.1 hguarded).1
  | orElseSecond _ _ ih => exact ih (Bool.and_eq_true_iff.1 hguarded).2
  | sepBy1First _ ih => exact ih (Bool.and_eq_true_iff.1 hguarded).1
  | sepBy1Round hround hcalls ih =>
    have hmid := hround.le_next
    have hle := hcalls.le_pos
    obtain ⟨hitem, hrest⟩ := Bool.and_eq_true_iff.1 hguarded
    rcases Bool.or_eq_true_iff.1 hrest with hconsumes | hseparator
    · have := hmid.2.2 hconsumes
      omega
    · have := ih (by simp [preceded, guarded, hitem, hseparator])
      omega
  | opt _ ih | map _ ih | nested _ _ ih | alloc _ ih => exact ih hguarded

end Calls

end Parser

end StreamTypes.Peg
