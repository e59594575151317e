import StreamTypes.Proofs.Peg.Tracking

/-!
# Runs that read a language

The invariant of `Tracks` along whole expressions: a run that starts where `B` is to be
tried ends where `K` may follow. Each combinator has one rule, so the claim for a
grammar is put together from the claims for its primitives. What a run leaves behind
when it does not match is a parameter, since a choice still has something to try there
while a sequence has nothing.

## Main definitions

- `Reads` — a run leads from one language to another
- `Leaves`, `Stalls` — what is left to try after a failure

## Main statements

- `Reads.andThen`, `Reads.optional`, `Reads.repeated` — the combinators
- `Reads.andThen_stalling` — a failure behind a literal is taken back to the
  alternatives that do not start with it
- `Reads.form` — a keyword and what stands in its brackets
-/

namespace StreamTypes.Peg

variable {ν α β : Type} {ρ : Type → Type}

section
variable (input : Input) (L : Language Char) (tokens : List String)

/-- Nothing is left to try, and something has failed at the position or behind it. -/
def Stalls (pos : Nat) (s : State ν) : Prop :=
  Stuck input L tokens s ∧ pos ≤ s.furthest

/-- `M` is left to try at the position, where or behind which something has failed. -/
def Leaves (M : Language Char) (pos : Nat) (s : State ν) : Prop :=
  Tracks input L tokens M s pos ∧ pos ≤ s.furthest

/-- Where `B` is to be tried, the run reads something behind which `K` may follow, or
else `F` holds of the position and the state it leaves. -/
def Reads (F : Nat → State ν → Prop) (run : Run ν α) (B K : Language Char) : Prop :=
  ∀ s pos, Tracks input L tokens B s pos →
    run.Ensures s pos
      ⟨fun _ next s' => pos ≤ next ∧ Tracks input L tokens K s' next, F pos,
        fun s' => s'.tooDeepAt.isSome = true, True⟩

end

variable {input : Input} {L B K K' M : Language Char} {tokens : List String}
  {F G : Nat → State ν → Prop} {s : State ν} {pos : Nat}

theorem Leaves.stalls (h : Leaves input L tokens 0 pos s) : Stalls input L tokens pos s :=
  ⟨h.1.stuck h.2, h.2⟩

theorem Leaves.truncate (h : Leaves input L tokens M pos s) (mark : Nat) :
    Leaves input L tokens M pos (s.truncate mark) :=
  ⟨h.1.congr rfl rfl, h.2⟩

theorem Stalls.truncate (h : Stalls input L tokens pos s) (mark : Nat) :
    Stalls input L tokens pos (s.truncate mark) :=
  ⟨h.1.congr rfl rfl, h.2⟩

theorem Stalls.of_le {pos' : Nat} (h : Stalls input L tokens pos' s) (hle : pos ≤ pos') :
    Stalls input L tokens pos s :=
  ⟨h.1, Nat.le_trans hle h.2⟩

namespace Reads

/-! ### Combinators -/

theorem mono {run : Run ν α} (h : Reads input L tokens F run B K)
    (hF : ∀ pos s, F pos s → G pos s) : Reads input L tokens G run B K := by
  intro s pos hs
  exact (h s pos hs).mono (fun _ _ _ h => h) (fun s' => hF pos s') (fun _ h => h) id

protected theorem yield (value : α) : Reads input L tokens F (Run.yield value) K K :=
  fun _ _ hs => ⟨Nat.le_refl _, hs⟩

theorem andThen {first : Run ν α} {next : α → Run ν β}
    (hfirst : Reads input L tokens F first B K)
    (hnext : ∀ v, Reads input L tokens G (next v) K K')
    (hG : ∀ pos pos' s, pos ≤ pos' → G pos' s → F pos s) :
    Reads input L tokens F (first.andThen next) B K' := by
  intro s pos hs
  rw [Run.ensures_andThen]
  refine (hfirst s pos hs).mono ?_ (fun _ h => h) (fun _ h => h) id
  rintro v mid s' ⟨hle, hs'⟩
  refine (hnext v s' mid hs').mono ?_ (fun s'' => hG pos mid s'' hle) (fun _ h => h) id
  rintro v' last s'' ⟨hle', hs''⟩
  exact ⟨Nat.le_trans hle hle', hs''⟩

theorem map {first : Run ν α} (h : Reads input L tokens F first B K) (f : α → β) :
    Reads input L tokens F (first.andThen fun v => Run.yield (f v)) B K :=
  h.andThen (G := fun _ _ => False) (fun v => Reads.yield (f v)) (fun _ _ _ _ h => h.elim)

theorem both {first : Run ν α} {second : Run ν β} (hfirst : Reads input L tokens F first B K)
    (hsecond : Reads input L tokens G second K K')
    (hG : ∀ pos pos' s, pos ≤ pos' → G pos' s → F pos s) :
    Reads input L tokens F
      (first.andThen fun a => second.andThen fun b => Run.yield (a, b)) B K' :=
  hfirst.andThen (fun a => hsecond.map fun b => (a, b)) hG

/-- After a literal that the alternatives do not start with, a failure leaves these. -/
theorem andThen_stalling {first : Run ν α} {next : α → Run ν β} {text : String}
    (htext : text ≠ "") (hM : ∀ v ∈ M, ¬ text.toList <+: v) (hB : ∀ v ∈ M, v ∈ B)
    (hfirst : ∀ s pos, Tracks input L tokens B s pos → first.Ensures s pos
      ⟨fun _ mid s' => pos + text.toList.length ≤ mid ∧ text.toList <+: input.rest pos ∧
          Tracks input L tokens K s' mid,
        Leaves input L tokens M pos, fun _ => False, False⟩)
    (hnext : ∀ v, Reads input L tokens (Stalls input L tokens) (next v) K K') :
    Reads input L tokens (Leaves input L tokens M) (first.andThen next) B K' := by
  have hlen : 0 < text.toList.length := List.length_pos_iff.2 (by simpa using htext)
  intro s pos hs
  rw [Run.ensures_andThen]
  refine (hfirst s pos hs).mono ?_ (fun _ h => h) (fun _ h => h.elim) False.elim
  rintro v mid s' ⟨hle, hfound, hs'⟩
  refine (hnext v s' mid hs').mono ?_ ?_ (fun _ h => h) id
  · rintro v' last s'' ⟨hle', hs''⟩
    exact ⟨by omega, hs''⟩
  · rintro s'' ⟨hstuck, hle'⟩
    refine ⟨hstuck.tracks (by omega) hle' (fun v hv => hs.sound v (hB v hv)) ?_, by omega⟩
    -- what has been read starts with the literal
    intro v hv hprefix
    refine hM v hv (List.IsPrefix.trans ?_ hprefix)
    exact List.prefix_take_iff.2 ⟨hfound, by omega⟩

protected theorem optional {body : Run ν α}
    (h : Reads input L tokens (Leaves input L tokens K) body B K) :
    Reads input L tokens F (Run.optional body) B K := by
  intro s pos hs
  rw [Run.ensures_optional]
  refine (h s pos hs).mono (fun _ _ _ h => h) ?_ (fun _ h => h) id
  intro s' hs'
  exact ⟨Nat.le_refl _, (hs'.truncate _).1⟩

/-- A list whose rounds may be followed by further rounds reads all of them. -/
protected theorem repeated {step : Run ν α}
    (h : Reads input L tokens (Leaves input L tokens K) step B B) (rounds : Nat)
    (values : List α) :
    Reads input L tokens (fun _ _ => False) (Run.repeated step rounds values) B K := by
  induction rounds generalizing values with
  | zero => exact fun s pos _ => (Run.ensures_repeated_zero s pos step values _).2 trivial
  | succ rounds ih =>
    intro s pos hs
    rw [Run.ensures_repeated_succ]
    refine (h s pos hs).mono ?_ ?_ (fun _ h => h) id
    · rintro v next s' ⟨hle, hs'⟩
      refine (ih (v :: values) s' next hs').mono ?_ (fun _ h => h) (fun _ h => h) id
      rintro vs last s'' ⟨hle', hs''⟩
      exact ⟨Nat.le_trans hle hle', hs''⟩
    · intro s' hs'
      exact ⟨Nat.le_refl _, (hs'.truncate _).1⟩

/-- The nesting depth has no part in what is noted. -/
protected theorem deeper {body : Run ν α} (maxDepth : Int)
    (h : Reads input L tokens (Stalls input L tokens) body B K) :
    Reads input L tokens (Stalls input L tokens) (Run.deeper maxDepth body) B K := by
  intro s pos hs
  rw [Run.ensures_deeper]
  split
  · -- a bound that is exceeded is noted once and for all
    change (s.tooDeepAt <|> some pos).isSome = true
    cases s.tooDeepAt <;> rfl
  · refine (h s.enter pos (hs.congr rfl rfl)).mono ?_ ?_ (fun _ h => h) id
    · rintro v next s' ⟨hle, hs'⟩
      exact ⟨hle, hs'.congr rfl rfl⟩
    · rintro s' ⟨hstuck, hle⟩
      exact ⟨hstuck.congr rfl rfl, hle⟩

/-! ### Primitives -/

section
variable (hlex : Lexicon tokens)
include hlex

protected theorem unsigned (hK : ∃ v, v ∈ K)
    (hdigit : ∀ v ∈ K, ∀ c ∈ v.head?, c.isDigit = false)
    (hM : ∀ v ∈ M, ∀ c ∈ v.head?, c.isDigit = false) :
    Reads input L tokens (Leaves input L tokens M) (Run.unsigned input : Run ν Nat)
      (numerals * K + M) K := by
  intro s pos hs
  refine (hs.unsigned hlex hK hdigit hM).mono ?_ (fun _ h => h) (fun _ h => h.elim) False.elim
  rintro v next s' ⟨hlt, hs'⟩
  exact ⟨Nat.le_of_lt hlt, hs'⟩

protected theorem literal {text : String} (ht : text ∈ tokens) (hcloses : Closes text)
    (hK : ∃ v, v ∈ K) :
    Reads input L tokens (Stalls input L tokens) (Run.literal input text : Run ν String)
      ({text.toList} * K) K := by
  intro s pos hs
  rw [← add_zero ({text.toList} * K)] at hs
  refine (hs.literal hlex ht hcloses hK (fun v hv => (Language.notMem_zero v hv).elim)).mono
    ?_ (fun _ h => Leaves.stalls h) (fun _ h => h.elim) False.elim
  rintro v next s' ⟨rfl, -, hs'⟩
  exact ⟨Nat.le_add_right _ _, hs'⟩

protected theorem comma {call : ∀ {α : Type}, ρ α → Run ν α} (ht : "," ∈ tokens)
    (hK : ∃ v, v ∈ K) (hgap : ∀ v ∈ K, ∀ c ∈ v.head?, isGap c = false)
    (hM : ∀ v ∈ M, v.head? = some ',' → v ∈ ({[',']} * (gaps * K) : Language Char)) :
    Reads input L tokens (Leaves input L tokens M) (Parser.comma.eval input call)
      ({[',']} * (gaps * K) + M) K := by
  intro s pos hs
  refine (hs.comma hlex ht hK hgap hM).mono ?_ (fun _ h => h) (fun _ h => h.elim) False.elim
  rintro v next s' ⟨hlt, -, hs'⟩
  exact ⟨Nat.le_of_lt hlt, hs'⟩

/-- A keyword that the alternatives do not start with, and what stands in its brackets. -/
protected theorem form {call : ∀ {α : Type}, ρ α → Run ν α} {keyword : String}
    {inner : Parser ν ρ α} (hkeyword : keyword ∈ tokens) (hcloses : Closes keyword)
    (hless : "<" ∈ tokens) (hgreater : ">" ∈ tokens) (hB : ∃ v, v ∈ B) (hK : ∃ v, v ∈ K)
    (hM : ∀ v ∈ M, ¬ keyword.toList <+: v)
    (hinner : Reads input L tokens (Stalls input L tokens) (inner.eval input call)
      (B * ({['>']} * K)) ({['>']} * K)) :
    Reads input L tokens (Leaves input L tokens M) ((Parser.form keyword inner).eval input call)
      ({keyword.toList} * ({['<']} * (B * ({['>']} * K))) + M) K := by
  obtain ⟨b, hb⟩ := hB
  obtain ⟨k, hk⟩ := hK
  have hclose : ['>'] ++ k ∈ ({['>']} * K : Language Char) := mem_word_mul.2 ⟨k, hk, rfl⟩
  have hbody : b ++ (['>'] ++ k) ∈ (B * ({['>']} * K) : Language Char) :=
    Language.append_mem_mul hb hclose
  have hopen : ['<'] ++ (b ++ (['>'] ++ k)) ∈ ({['<']} * (B * ({['>']} * K)) : Language Char) :=
    mem_word_mul.2 ⟨_, hbody, rfl⟩
  have hstalls : ∀ pos pos' (s : State ν), pos ≤ pos' → Stalls input L tokens pos' s →
      Stalls input L tokens pos s := fun _ _ _ hle h => h.of_le hle
  obtain ⟨c, r, hc, -⟩ := hlex.head keyword hkeyword
  have hless : Reads (ν := ν) input L tokens (Stalls input L tokens) (Run.literal input "<")
      ({['<']} * (B * ({['>']} * K))) (B * ({['>']} * K)) :=
    Reads.literal hlex hless ⟨'<', rfl, rfl, rfl, by decide⟩ ⟨_, hbody⟩
  have hgreater : Reads (ν := ν) input L tokens (Stalls input L tokens) (Run.literal input ">")
      ({['>']} * K) K :=
    Reads.literal hlex hgreater ⟨'>', rfl, rfl, rfl, by decide⟩ ⟨k, hk⟩
  -- behind the keyword nothing is left to try, so only the keyword can be given up
  have hinside := hless.andThen
    (fun _ => hinner.andThen (fun v => hgreater.map fun _ => v) hstalls) hstalls
  intro s pos hs
  have hform := andThen_stalling (show keyword ≠ "" by rintro rfl; simp at hc) hM
    (fun v hv => .inr hv)
    (fun s pos hs => (hs.literal hlex hkeyword hcloses ⟨_, hopen⟩ hM).mono
      (fun _ _ _ h => ⟨Nat.le_of_eq h.1.symm, h.2⟩) (fun _ h => h) (fun _ h => h) id)
    (fun _ => hinside) s pos hs
  rw [Parser.ensures_form]
  simpa only [Run.ensures_andThen, Run.ensures_yield] using hform

end

end Reads

end StreamTypes.Peg
