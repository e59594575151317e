import StreamTypes.Text.Digits
import Mathlib.Algebra.Group.Nat.Defs
import Mathlib.Data.List.Basic

/-!
# Unsigned numerals

The numerals of type expressions as a relation between texts and numbers: up to
`numeralLimit` ASCII digits, of which the first ones may be zeros.

## Main statements

- `repr_injective` — numbers with the same decimal digits are equal
- `isNumeral_repr` — the decimal digits of a number are a numeral for it
- `IsNumeral.lt` — the number of a numeral has no more digits than a numeral may have
-/

namespace StreamTypes.Text

/-- The text is a numeral for `n`. -/
structure IsNumeral (w : List Char) (n : Nat) : Prop where
  ne_nil : w ≠ []
  length_le : w.length ≤ numeralLimit
  isDigit : ∀ c ∈ w, c.isDigit = true
  value : digitsValue w = n

variable {n : Nat}

theorem isDigit_of_mem_repr {c : Char} (h : c ∈ n.repr.toList) : c.isDigit = true := by
  rw [Nat.toList_repr] at h
  exact Nat.isDigit_of_mem_toDigits (by decide) (by decide) h

theorem repr_injective : Function.Injective Nat.repr := by
  intro m n h
  have hdigits : Nat.toDigits 10 m = Nat.toDigits 10 n := by
    rw [← Nat.toList_repr, ← Nat.toList_repr, h]
  calc
    m = Nat.ofDigitChars 10 (Nat.toDigits 10 m) 0 := Nat.ofDigitChars_ten_toDigits.symm
    _ = Nat.ofDigitChars 10 (Nat.toDigits 10 n) 0 := by rw [hdigits]
    _ = n := Nat.ofDigitChars_ten_toDigits

/-- Texts are split where a character stands for the first time. -/
theorem append_cons_inj {α : Type} [DecidableEq α] {a : α} {w w' r r' : List α} (hw : a ∉ w)
    (hw' : a ∉ w') (h : w ++ a :: r = w' ++ a :: r') : w = w' ∧ r = r' := by
  have hplace := congrArg (List.idxOf a) h
  rw [List.idxOf_append_of_notMem hw, List.idxOf_append_of_notMem hw', List.idxOf_cons_self,
    List.idxOf_cons_self, Nat.add_right_cancel_iff] at hplace
  obtain ⟨hbefore, hbehind⟩ := List.append_inj h hplace
  exact ⟨hbefore, (List.cons.inj hbehind).2⟩

/-- The decimal digits of a number are read off a text that goes on with another character. -/
theorem repr_append_inj {m : Nat} {c : Char} {r r' : List Char} (hc : c.isDigit = false)
    (h : m.repr.toList ++ c :: r = n.repr.toList ++ c :: r') : m = n ∧ r = r' := by
  have hdigits : ∀ k : Nat, c ∉ k.repr.toList := by
    intro k hmem
    rw [isDigit_of_mem_repr hmem] at hc
    exact absurd hc (by decide)
  obtain ⟨hrepr, hrest⟩ := append_cons_inj (hdigits m) (hdigits n) h
  exact ⟨repr_injective (String.toList_inj.1 hrepr), hrest⟩

/-- The decimal digits of a number are a numeral for it, unless there are too many. -/
theorem isNumeral_repr (h : n < 10 ^ numeralLimit) : IsNumeral n.repr.toList n := by
  refine ⟨?_, ?_, fun c hc => isDigit_of_mem_repr hc, ?_⟩ <;> rw [Nat.toList_repr]
  · exact Nat.toDigits_ne_nil
  · exact (Nat.length_toDigits_le_iff (by decide) (by decide)).2 h
  · exact Nat.ofDigitChars_ten_toDigits

theorem isNumeral_digit {c : Char} (hc : c.isDigit = true) (hn : digitsValue [c] = n) :
    IsNumeral [c] n := by
  refine ⟨List.cons_ne_nil c [], by simp [numeralLimit], ?_, hn⟩
  intro d hd
  rwa [List.mem_singleton.1 hd]

theorem isNumeral_zero : IsNumeral ['0'] 0 :=
  isNumeral_digit rfl rfl

/-- A row of digits behind a number gives a number with as many more digits. -/
theorem ofDigitChars_lt {w : List Char} (h : ∀ c ∈ w, c.isDigit = true) (start : Nat) :
    Nat.ofDigitChars 10 w start < (start + 1) * 10 ^ w.length := by
  induction w generalizing start with
  | nil => simp
  | cons c w ih =>
    have hdigit : c.toNat - '0'.toNat ≤ 9 := by
      have hc := Char.isDigit_iff_toNat.1 (h c (by simp))
      have hzero : '0'.toNat = 48 := rfl
      have hnine : '9'.toNat = 57 := rfl
      omega
    have hstep : 10 * start + (c.toNat - '0'.toNat) + 1 ≤ (start + 1) * 10 := by omega
    rw [Nat.ofDigitChars_cons, List.length_cons, Nat.pow_succ', ← Nat.mul_assoc]
    exact Nat.lt_of_lt_of_le (ih (fun d hd => h d (by simp [hd])) _)
      (Nat.mul_le_mul_right _ hstep)

/-- The number of a numeral has no more digits than a numeral may have. -/
theorem IsNumeral.lt {w : List Char} (h : IsNumeral w n) : n < 10 ^ numeralLimit := by
  have hlt := ofDigitChars_lt h.isDigit 0
  rw [Nat.zero_add, Nat.one_mul] at hlt
  rw [← h.value]
  exact Nat.lt_of_lt_of_le hlt (Nat.pow_le_pow_right (by decide) h.length_le)

end StreamTypes.Text
