import Mathlib.Data.List.Sort
import StreamTypes.Text.Wide

/-!
# The order of texts

Texts are compared code point by code point. No two code points have the same code, so of two
texts that come before each other there is one only, and sorting does not depend on the order in
which texts are given.

## Main statements

- `WideText.precedes_trans`, `WideText.precedes_total`, `WideText.precedes_antisymm` — a linear
  order
- `WideText.mergeSort_eq_of_perm` — sorted texts
-/

namespace StreamTypes

/-- No surrogate is a character. -/
theorem CodePoint.code_injective : Function.Injective code := by
  have hchar : ∀ c : Char, c.toNat < 0xD800 ∨ 0xDFFF < c.toNat := by
    intro c
    obtain h | h := c.valid
    · exact .inl h
    · exact .inr h.1
  rintro (c | i) (d | j) h
  · exact congrArg _ (Char.toNat_inj.1 h)
  · have := hchar c
    simp only [code] at h
    omega
  · have := hchar d
    simp only [code] at h
    omega
  · simp only [code] at h
    exact congrArg _ (Fin.ext (by omega))

namespace WideText

variable {s t u : WideText} {a b : CodePoint}

theorem precedes_cons : precedes (a :: s) (b :: t) = true ↔
    a.code < b.code ∨ a.code = b.code ∧ precedes s t = true := by
  by_cases h : a.code = b.code
  · simp [precedes, h]
  · simp [precedes, h]

theorem precedes_trans : {s t u : WideText} → precedes s t = true → precedes t u = true →
    precedes s u = true
  | [], _, _, _, _ => rfl
  | _ :: _, [], _, h, _ => by simp [precedes] at h
  | _ :: _, _ :: _, [], _, h => by simp [precedes] at h
  | a :: s, b :: t, c :: u, hab, hbc => by
    rw [precedes_cons] at hab hbc ⊢
    obtain hab | ⟨hab, hst⟩ := hab
    · left
      omega
    · obtain hbc | ⟨hbc, htu⟩ := hbc
      · left
        omega
      · exact .inr ⟨hab.trans hbc, precedes_trans hst htu⟩

theorem precedes_total : (s t : WideText) → precedes s t = true ∨ precedes t s = true
  | [], _ => .inl rfl
  | _ :: _, [] => .inr rfl
  | a :: s, b :: t => by
    rw [precedes_cons, precedes_cons]
    rcases Nat.lt_trichotomy a.code b.code with hab | hab | hab
    · exact .inl (.inl hab)
    · apply (precedes_total s t).imp
      · exact fun h => .inr ⟨hab, h⟩
      · exact fun h => .inr ⟨hab.symm, h⟩
    · exact .inr (.inl hab)

theorem precedes_antisymm : {s t : WideText} → precedes s t = true → precedes t s = true → s = t
  | [], [], _, _ => rfl
  | [], _ :: _, _, h => by simp [precedes] at h
  | _ :: _, [], h, _ => by simp [precedes] at h
  | a :: s, b :: t, hst, hts => by
    rw [precedes_cons] at hst hts
    obtain hab | ⟨hab, hst⟩ := hst
    · omega
    · obtain hba | ⟨-, hts⟩ := hts
      · omega
      · rw [CodePoint.code_injective hab, precedes_antisymm hst hts]

/-- The same texts are sorted in the same way, in whatever order they are given. -/
theorem mergeSort_eq_of_perm {texts texts' : List WideText} (h : texts.Perm texts') :
    texts.mergeSort precedes = texts'.mergeSort precedes := by
  have hsorted (l : List WideText) : (l.mergeSort precedes).Pairwise (precedes · ·) := by
    apply List.pairwise_mergeSort
    · exact fun s t u => precedes_trans
    · exact fun s t => Bool.or_eq_true_iff.2 (precedes_total s t)
  apply List.Perm.eq_of_pairwise (fun s t _ _ => precedes_antisymm) (hsorted _) (hsorted _)
  calc texts.mergeSort precedes
    _ |>.Perm texts := List.mergeSort_perm _ _
    _ |>.Perm texts' := h
    _ |>.Perm (texts'.mergeSort precedes) := (List.mergeSort_perm _ _).symm

end WideText

end StreamTypes
