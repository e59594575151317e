import StreamTypes.Proofs.River.Tracking

/-!
# Error reports

A text that is not an expression is reported with a position and a list of what was
expected there. Both are exact: what stands in front of the position begins some
expression, each item of the list can stand next, and whatever can stand next is in the
list, unless it only prolongs the last token in front of the position.

## Main statements

- `run_eq_unexpected` — a report describes the state that a failed parse leaves
- `unexpected_exact` — position and list of a report are exact
-/

namespace StreamTypes.Peg

variable {ν : Type} {ρ : Type → Type} {α : Type}

theorem State.mem_listed {s : State ν} {item : String} :
    item ∈ s.listed ↔ ∃ e ∈ s.expected, e.describe = item := by
  rw [State.listed, List.mem_mergeSort, List.mem_eraseDups, List.mem_map]

/-- A report describes the state that a failed parse leaves. -/
theorem run_eq_unexpected {limit : Nat} {rules : Rules ν ρ} {p : Parser ν ρ α}
    {input : Input} {offset : Nat} {expected : List String} {found : Option Char}
    (h : run limit rules p input = .error (.unexpected offset expected found))
    {post : Ending ν α}
    (hpost : ((p.terminated .endOfInput).evalWithin input rules limit).Ensures {} 0 post)
    (htooDeep : ∀ s, post.tooDeep s → s.tooDeepAt.isSome = true) :
    ∃ s, post.backtracked s ∧ offset = s.furthest ∧ expected = s.listed := by
  have herror : ∀ s : State ν, s.error input = .unexpected offset expected found →
      s.tooDeepAt = none ∧ offset = s.furthest ∧ expected = s.listed := by
    intro s hs
    unfold State.error at hs
    split at hs
    · simp at hs
    · next hnone =>
      simp only [ParseError.unexpected.injEq] at hs
      exact ⟨hnone, hs.1.symm, hs.2.1.symm⟩
  rw [run] at h
  cases hrun : (p.terminated .endOfInput).evalWithin input rules limit {} 0 with
  | mk outcome s =>
    rw [hrun] at h
    cases outcome with
    | accepted => simp at h
    | exhausted => simp at h
    | backtracked =>
      obtain ⟨-, hreport⟩ := herror s (Except.error.inj h)
      exact ⟨s, hpost.of_backtracked hrun, hreport⟩
    | tooDeep =>
      -- such a state is reported as a nesting error
      obtain ⟨hnone, -⟩ := herror s (Except.error.inj h)
      have hsome := htooDeep s (hpost.of_tooDeep hrun)
      rw [hnone] at hsome
      exact absurd hsome (by decide)

end StreamTypes.Peg

namespace StreamTypes.River

open Peg

theorem parseWithin_eq_unexpected {limit : Nat} {source : String} {maxDepth : Int}
    {offset : Nat} {expected : List String} {found : Option Char}
    (h : parseWithin limit source maxDepth =
      .error (.parse (.unexpected offset expected found))) :
    ∃ s, Stuck (ν := Node Nat) (Input.ofString source maxDepth) expressions tokens s ∧
      offset = s.furthest ∧ expected = s.listed := by
  have hrun : Peg.run limit rules (.ref .river) (Input.ofString source maxDepth) =
      .error (.unexpected offset expected found) := by
    rw [parseWithin] at h
    split at h
    · next hrun =>
      rw [hrun, Rejection.parse.inj (Except.error.inj h)]
    · split at h <;> simp at h
  exact run_eq_unexpected hrun (ensures_expression_or_stuck limit _) fun _ h => h

/-- A report is exact. What stands in front of the position begins an expression, each
item that is listed can stand next, and an expression that begins with the same text
goes on as listed or prolongs the last token. -/
theorem unexpected_exact (limit : Nat) (source : String) (maxDepth : Int) (offset : Nat)
    (expected : List String) (found : Option Char)
    (h : parseWithin limit source maxDepth =
      .error (.parse (.unexpected offset expected found))) :
    offset ≤ source.length ∧ expected ≠ [] ∧
      (∃ v, source.toList.take offset ++ v ∈ expressions) ∧
      (∀ item ∈ expected, ∃ e : Expectation, e.describe = item ∧
        (∀ text, e = .literal text → text ∈ tokens) ∧
          e.Continues expressions (source.toList.take offset)) ∧
      ∀ v, source.toList.take offset ++ v ∈ expressions →
        (∃ e : Expectation, e.describe ∈ expected ∧ e.Opens v) ∨
          ∃ c ∈ v.head?, Prolongs (source.toList.take offset) c := by
  obtain ⟨s, hs, rfl, rfl⟩ := parseWithin_eq_unexpected h
  have hne : s.expected ≠ [] := hs.expected_ne_nil ⟨_, expression_zero⟩
  obtain ⟨e, he⟩ := List.exists_mem_of_ne_nil _ hne
  refine ⟨hs.furthest_le, ?_, ?_, ?_, ?_⟩
  · exact List.ne_nil_of_mem (State.mem_listed.2 ⟨e, he, rfl⟩)
  · exact Expectation.Continues.exists_append (hs.justified e he).continues
  · intro item hitem
    obtain ⟨e, he, rfl⟩ := State.mem_listed.1 hitem
    exact ⟨e, rfl, (hs.justified e he).known, (hs.justified e he).continues⟩
  · intro v hv
    refine (hs.covers v hv).imp_left ?_
    rintro ⟨e, he, hopens⟩
    exact ⟨e, State.mem_listed.2 ⟨e, he, rfl⟩, hopens⟩

/-- Behind three parameters only a closing bracket is expected. -/
theorem unexpected_exact_of_fourth_parameter :
    parseWithin 2 "Root<Bits<8>, 2, , 4, 5>" 64 =
        .error (.parse (.unexpected 20 ["'>'"] (some ','))) ∧
      ∃ v, "Root<Bits<8>, 2, , 4".toList ++ v ∈ expressions := by
  have h : parseWithin 2 "Root<Bits<8>, 2, , 4, 5>" 64 =
      .error (.parse (.unexpected 20 ["'>'"] (some ','))) := by
    decide +kernel
  exact ⟨h, (unexpected_exact 2 _ 64 _ _ _ h).2.2.1⟩

end StreamTypes.River
