import StreamTypes.Proofs.River.Expression
import StreamTypes.Proofs.Peg.Reading

/-!
# What the furthest failure says of River expressions

Reading a River expression keeps the invariant of `Tracks`: what may stand behind the
expression is what may still follow once it has been read. The optional parameters are
the one place where the alternatives to a comma may themselves start with a comma. They
are then taken for what follows the comma, so nothing is lost when the comma is read.

## Main definitions

- `Boundary` — a language that may stand behind optional parameters

## Main statements

- `reads_river` — reading an expression
- `ensures_expression_or_stuck` — a text that is read in full is an expression, and a
  text that is not leaves a note that covers all expressions
-/

namespace StreamTypes.River

open Peg

variable {ν : Type} {ρ : Type → Type} {input : Input} {call : ∀ {α : Type}, ρ α → Run ν α}
  {L K M : Language Char} {v : List Char}

/-- What may stand behind optional parameters. A comma that follows may be taken for
one that introduces another parameter. -/
structure Boundary (K : Language Char) : Prop where
  nonempty : ∃ v, v ∈ K
  digit : ∀ v ∈ K, ∀ c ∈ v.head?, c.isDigit = false
  gap : ∀ v ∈ K, ∀ c ∈ v.head?, isGap c = false
  comma : ∀ v ∈ K, v.head? = some ',' → v ∈ ({[',']} * (gaps * (fields * K)) : Language Char)

theorem head?_of_mem_close (h : v ∈ ({['>']} * K : Language Char)) : v.head? = some '>' := by
  obtain ⟨k, -, rfl⟩ := mem_word_mul.1 h
  rfl

theorem Boundary.close (hK : ∃ v, v ∈ K) : Boundary ({['>']} * K) := by
  obtain ⟨k, hk⟩ := hK
  refine ⟨⟨_, mem_word_mul.2 ⟨k, hk, rfl⟩⟩, ?_, ?_, ?_⟩
  · intro v hv c hc
    rw [head?_of_mem_close hv, Option.mem_some_iff] at hc
    rw [← hc]
    decide
  · intro v hv c hc
    rw [head?_of_mem_close hv, Option.mem_some_iff] at hc
    rw [← hc]
    decide
  · intro v hv hc
    rw [head?_of_mem_close hv] at hc
    exact absurd hc (by decide)

theorem mem_laterFields_mul :
    v ∈ laterFields * K ↔ v ∈ K ∨ v ∈ ({[',']} * (gaps * (fields * K)) : Language Char) := by
  rw [laterFields, add_mul, one_mul, mul_assoc, mul_assoc]
  exact Or.comm

/-- What may stand behind a parameter may also start with another one. -/
theorem Boundary.later (h : Boundary K) : Boundary (laterFields * K) := by
  have hle : ∀ v ∈ K, v ∈ laterFields * K := fun v hv => mem_laterFields_mul.2 (.inl hv)
  have hcomma : ∀ v ∈ ({[',']} * (gaps * (fields * K)) : Language Char), v.head? = some ',' := by
    intro v hv
    obtain ⟨u, -, rfl⟩ := mem_word_mul.1 hv
    rfl
  obtain ⟨k, hk⟩ := h.nonempty
  refine ⟨⟨k, hle k hk⟩, ?_, ?_, ?_⟩
  · intro v hv c hc
    rcases mem_laterFields_mul.1 hv with hv | hv
    · exact h.digit v hv c hc
    · rw [hcomma v hv, Option.mem_some_iff] at hc
      rw [← hc]
      decide
  · intro v hv c hc
    rcases mem_laterFields_mul.1 hv with hv | hv
    · exact h.gap v hv c hc
    · rw [hcomma v hv, Option.mem_some_iff] at hc
      rw [← hc]
      decide
  · intro v hv hc
    have hv : v ∈ ({[',']} * (gaps * (fields * K)) : Language Char) :=
      (mem_laterFields_mul.1 hv).elim (fun hv => h.comma v hv hc) id
    obtain ⟨g, hg, u, hu, rfl⟩ := mem_comma_mul.1 hv
    obtain ⟨w, hw, k, hk, rfl⟩ := Language.mem_mul.1 hu
    exact mem_comma_mul.2 ⟨g, hg, _, Language.append_mem_mul hw (hle k hk), rfl⟩

theorem isGap_eq_false_of_numeral (hK : ∀ v ∈ K, ∀ c ∈ v.head?, isGap c = false) :
    ∀ v ∈ numerals * M + K, ∀ c ∈ v.head?, isGap c = false := by
  rintro v (hv | hv) c hc
  · obtain ⟨w, ⟨n, hw⟩, u, -, rfl⟩ := Language.mem_mul.1 hv
    exact isGap_head_of_numeral hw c hc
  · exact hK v hv c hc

/-! ### Parameters -/

theorem fields_mul : fields * K = numerals * K + K := by
  rw [fields_eq, add_mul, one_mul]

theorem laterFields_mul : laterFields * K = {[',']} * (gaps * (fields * K)) + K := by
  rw [laterFields, add_mul, one_mul, mul_assoc, mul_assoc]

theorem reads_laterParam (hK : Boundary K) :
    Reads input L tokens (fun _ _ => False)
      ((laterParam : Parser ν ρ (Option Nat)).eval input call) (laterFields * K) K := by
  obtain ⟨k, hk⟩ := hK.nonempty
  -- an optional part reads what may follow it as well
  have hnumeral : Reads (ν := ν) input L tokens (fun _ _ => False)
      (Run.optional (Run.unsigned input)) (fields * K) K := by
    rw [fields_mul]
    exact (Reads.unsigned lexicon hK.nonempty hK.digit hK.digit).optional
  have hcomma : Reads (ν := ν) input L tokens (Leaves input L tokens K)
      (Parser.comma.eval input call) (laterFields * K) (fields * K) := by
    rw [laterFields_mul]
    refine Reads.comma lexicon (by decide) ?_ ?_ hK.comma
    · rw [fields_mul]
      exact ⟨k, .inr hk⟩
    · rw [fields_mul]
      exact isGap_eq_false_of_numeral hK.gap
  exact ((hcomma.both hnumeral (fun _ _ _ _ h => h.elim)).map Prod.snd).optional.map Option.join

theorem reads_params (hK : Boundary K) :
    Reads input L tokens (fun _ _ => False) ((params : Parser ν ρ Params).eval input call)
      (numerals * (laterFields * (laterFields * K)) + K) K := by
  have hlater := hK.later.later
  have hnumeral : Reads (ν := ν) input L tokens (Leaves input L tokens K) (Run.unsigned input)
      (numerals * (laterFields * (laterFields * K)) + K) (laterFields * (laterFields * K)) :=
    Reads.unsigned lexicon hlater.nonempty hlater.digit hK.digit
  have hfirst : Reads input L tokens (fun _ _ => False)
      ((laterParam : Parser ν ρ (Option Nat)).eval input call)
      (laterFields * (laterFields * K)) (laterFields * K) := reads_laterParam hK.later
  have hsecond : Reads input L tokens (fun _ _ => False)
      ((laterParam : Parser ν ρ (Option Nat)).eval input call) (laterFields * K) K :=
    reads_laterParam hK
  exact (hnumeral.both (hfirst.both hsecond (fun _ _ _ _ h => h))
    (fun _ _ _ _ h => h.elim)).optional.map _

/-- What may follow the child of a wrapping form. -/
theorem reads_arguments (hK : ∃ v, v ∈ K) :
    Reads input L tokens (fun _ _ => False)
      ((Parser.opt (.preceded .comma params) : Parser ν ρ (Option Params)).eval input call)
      (arguments * ({['>']} * K)) ({['>']} * K) := by
  have hclose := Boundary.close hK
  obtain ⟨k, hk⟩ := hclose.nonempty
  have hsplit : arguments * ({['>']} * K) = {[',']} * (gaps *
      (numerals * (laterFields * (laterFields * ({['>']} * K))) + {['>']} * K)) +
        {['>']} * K := by
    rw [arguments_eq]
    simp only [add_mul, one_mul, mul_assoc]
  have hcomma : Reads (ν := ν) input L tokens (Leaves input L tokens ({['>']} * K))
      (Parser.comma.eval input call) (arguments * ({['>']} * K))
      (numerals * (laterFields * (laterFields * ({['>']} * K))) + {['>']} * K) := by
    rw [hsplit]
    refine Reads.comma lexicon (by decide) ⟨k, .inr hk⟩
      (isGap_eq_false_of_numeral hclose.gap) fun v hv hc => ?_
    exact absurd ((head?_of_mem_close hv).symm.trans hc) (by decide)
  exact ((hcomma.both (reads_params hclose) (fun _ _ _ _ h => h.elim)).map Prod.snd).optional

/-! ### Forms -/

theorem expression_zero : enclosed .bits ['0'] ∈ expressions :=
  ⟨.bits 0, .bits Text.isNumeral_zero⟩

/-- A run of the rule reads an expression, whatever follows it. -/
def ReadsRiver (input : Input) (L : Language Char) (river : Run ν Nat) : Prop :=
  ∀ K : Language Char, (∃ v, v ∈ K) →
    Reads input L tokens (Stalls input L tokens) river (expressions * K) K

section
variable {store : Node Nat → ν} {river : Parser ν ρ Nat}
  (hriver : ReadsRiver input L (river.eval input call))
include hriver

theorem reads_member (hK : ∃ v, v ∈ K) :
    Reads input L tokens (Leaves input L tokens ({['>']} * K))
      ((Parser.comma.eval input call).andThen fun _ => river.eval input call)
      (members * ({['>']} * K)) (members * ({['>']} * K)) := by
  obtain ⟨k, hk⟩ := hK
  have hclose : ['>'] ++ k ∈ ({['>']} * K : Language Char) := mem_word_mul.2 ⟨k, hk, rfl⟩
  have hmembers : [] ++ (['>'] ++ k) ∈ members * ({['>']} * K) :=
    Language.append_mem_mul ⟨[], .nil⟩ hclose
  have hsplit : members * ({['>']} * K) =
      {[',']} * (gaps * (expressions * (members * ({['>']} * K)))) + {['>']} * K := by
    conv_lhs => rw [members_eq]
    simp only [add_mul, one_mul, mul_assoc]
  have hcomma : ∀ v ∈ ({['>']} * K : Language Char), v.head? ≠ some ',' := by
    intro v hv
    rw [head?_of_mem_close hv]
    decide
  have hgap : ∀ v ∈ expressions * (members * ({['>']} * K)), ∀ c ∈ v.head?, isGap c = false := by
    intro v hv
    obtain ⟨w, ⟨t, hw⟩, u, -, rfl⟩ := Language.mem_mul.1 hv
    exact isGap_head_of_expression hw u
  refine Reads.andThen_stalling (show "," ≠ "" by decide) ?_ ?_ ?_
    (fun _ => hriver _ ⟨_, hmembers⟩)
  · rintro v hv ⟨r, rfl⟩
    exact hcomma _ hv rfl
  · intro v hv
    rw [hsplit]
    exact .inr hv
  · intro s pos hs
    rw [hsplit] at hs
    refine (hs.comma lexicon (by decide) ⟨_, Language.append_mem_mul expression_zero hmembers⟩
      hgap (fun v hv hc => (hcomma v hv hc).elim)).mono ?_
      (fun _ h => h) (fun _ h => h) id
    rintro v mid s' ⟨hlt, hhead, hs'⟩
    obtain ⟨r, hr⟩ := List.head?_eq_some_iff.1 hhead
    exact ⟨hlt, hr ▸ List.prefix_append [','] r, hs'⟩

theorem reads_commaList (hK : ∃ v, v ∈ K) :
    Reads input L tokens (Stalls input L tokens) ((Parser.commaList river).eval input call)
      (bodies (.collect .group) * ({['>']} * K)) ({['>']} * K) := by
  have hmembers : ∃ v, v ∈ members * ({['>']} * K) := by
    obtain ⟨v, hv⟩ := (Boundary.close hK).nonempty
    exact ⟨[] ++ v, Language.append_mem_mul ⟨[], .nil⟩ hv⟩
  intro s pos hs
  rw [bodies, mul_assoc] at hs
  rw [Parser.commaList, Parser.ensures_sepBy1]
  refine (hriver _ hmembers s pos hs).mono ?_ (fun _ h => h) (fun _ h => h) id
  rintro head next s' ⟨hle, hs'⟩
  refine (Reads.repeated (reads_member hriver hK) _ [] s' next hs').mono ?_
    (fun _ h => h.elim) (fun _ h => h) id
  rintro tail last s'' ⟨hle', hs''⟩
  exact ⟨Nat.le_trans hle hle', hs''⟩

/-- A form, where `M` holds the alternatives to it. -/
theorem reads_formOf (kind : Kind) (hK : ∃ v, v ∈ K)
    (hM : ∀ v ∈ M, ¬ kind.keyword.toList <+: v) :
    Reads input L tokens (Leaves input L tokens M) ((formOf store river kind).eval input call)
      ({kind.keyword.toList} * ({['<']} * (bodies kind * ({['>']} * K))) + M) K := by
  have hclose := Boundary.close hK
  have hbody : ∃ v, v ∈ bodies kind := by
    cases kind with
    | bits => exact ⟨['0'], 0, Text.isNumeral_zero⟩
    | wrap => exact ⟨_, Language.append_mem_mul expression_zero ⟨{}, .absent⟩⟩
    | collect => exact ⟨_, Language.append_mem_mul expression_zero ⟨[], .nil⟩⟩
  -- the kinds differ in what stands in their brackets only
  have hform : ∀ {α : Type} {inner : Parser ν ρ α} (build : α → ν),
      Reads input L tokens (Stalls input L tokens) (inner.eval input call)
        (bodies kind * ({['>']} * K)) ({['>']} * K) →
      Reads input L tokens (Leaves input L tokens M)
        ((Parser.alloc build (.form kind.keyword inner)).eval input call)
        ({kind.keyword.toList} * ({['<']} * (bodies kind * ({['>']} * K))) + M) K := by
    intro α inner build hinner s pos hs
    rw [Parser.ensures_alloc]
    refine (Reads.form lexicon (keyword_mem_tokens kind) (closes_keyword kind) (by decide)
      (by decide) hbody hK hM hinner s pos hs).mono ?_ (fun _ h => h) (fun _ h => h) id
    rintro v next s' ⟨hle, hs'⟩
    exact ⟨hle, hs'.congr rfl rfl⟩
  cases kind with
  | bits =>
    have hnumeral : Reads (ν := ν) input L tokens (Leaves input L tokens 0) (Run.unsigned input)
        (numerals * ({['>']} * K) + 0) ({['>']} * K) :=
      Reads.unsigned lexicon hclose.nonempty hclose.digit
        (fun v hv => (Language.notMem_zero v hv).elim)
    rw [add_zero] at hnumeral
    exact hform _ (hnumeral.mono fun _ _ => Leaves.stalls)
  | wrap wrapper =>
    obtain ⟨k, hk⟩ := hclose.nonempty
    have hchild := hriver (arguments * ({['>']} * K))
      ⟨[] ++ k, Language.append_mem_mul ⟨{}, .absent⟩ hk⟩
    rw [← mul_assoc] at hchild
    exact hform _ (Reads.deeper _ (hchild.both (reads_arguments hK)
      (fun _ _ _ _ h => h.elim)))
  | collect collection => exact hform _ (Reads.deeper _ (reads_commaList hriver hK))

/-- A choice among some kinds of form. Unless there are none, the first of them fails
at the position or behind it. -/
theorem choice_ensures (hK : ∃ v, v ∈ K) {kinds : List Kind} (hnodup : kinds.Nodup)
    {s : State ν} {pos : Nat} (hs : Tracks input L tokens (alternatives kinds * K) s pos)
    (hpos : kinds = [] → pos ≤ s.furthest) :
    ((Parser.choice (kinds.map (formOf store river))).eval input call).Ensures s pos
      ⟨fun _ next s' => pos ≤ next ∧ Tracks input L tokens K s' next,
        Stalls input L tokens pos, fun s' => s'.tooDeepAt.isSome = true, True⟩ := by
  induction kinds generalizing s with
  | nil =>
    rw [alternatives_nil_mul] at hs
    exact Leaves.stalls ⟨hs, hpos rfl⟩
  | cons kind kinds ih =>
    rw [List.nodup_cons] at hnodup
    have hM : ∀ v ∈ alternatives kinds * K, ¬ kind.keyword.toList <+: v := by
      intro v hv hprefix
      obtain ⟨_, ⟨kind', hkind', b, -, rfl⟩, k, -, rfl⟩ := Language.mem_mul.1 hv
      rw [enclosed, List.append_assoc] at hprefix
      exact hnodup.1 (kind_eq_of_keyword hprefix ▸ hkind')
    rw [alternatives_cons_mul] at hs
    rw [List.map_cons, Parser.ensures_choice_cons]
    refine (reads_formOf hriver kind hK hM s pos hs).mono (fun _ _ _ h => h) ?_
      (fun _ h => h) id
    intro s' hs'
    have hs' := hs'.truncate s.arena.size
    refine (ih hnodup.2 hs'.1 (fun _ => hs'.2)).mono (fun _ _ _ h => h) ?_ (fun _ h => h) id
    exact fun s'' hs'' => hs''.truncate _

theorem reads_anyForm (hK : ∃ v, v ∈ K) :
    Reads input L tokens (Stalls input L tokens) ((anyForm store river).eval input call)
      (expressions * K) K := by
  intro s pos hs
  rw [expressions_eq] at hs
  -- the choice is over all kinds, so it is never empty
  rw [anyForm_eq]
  exact choice_ensures hriver hK (by decide) hs nofun

end

/-! ### Whole texts -/

/-- Reading an expression, however many references may be nested. -/
theorem reads_river (limit : Nat) (hK : ∃ v, v ∈ K) :
    Reads input L tokens (Stalls input L tokens)
      (Parser.callWithin input rules limit Rule.river) (expressions * K) K := by
  induction limit generalizing K with
  | zero => exact fun _ _ _ => trivial
  | succ limit ih =>
    rw [Parser.callWithin_succ]
    have hriver : ReadsRiver input L ((Parser.ref Rule.river : Parser (Node Nat) Rule Nat).eval
        input (Parser.callWithin input rules limit)) := fun K hK => ih hK
    exact reads_anyForm hriver hK

/-- A text that is read in full is an expression, and a text that is not leaves a note
that covers all expressions. -/
theorem ensures_expression_or_stuck (limit : Nat) (input : Input) :
    (((Parser.ref Rule.river).terminated .endOfInput).evalWithin input rules limit).Ensures
      {} 0 ⟨fun _ _ _ => input.text.toList ∈ expressions, Stuck input expressions tokens,
        fun s => s.tooDeepAt.isSome = true, True⟩ := by
  have hstart : Tracks input expressions tokens (expressions * 1) ({} : State (Node Nat)) 0 := by
    rw [mul_one]
    exact Tracks.start input expressions tokens
  rw [Parser.evalWithin_eq]
  simp only [Parser.terminated, Parser.eval_map, Parser.eval_both, Parser.eval_ref,
    Parser.eval_endOfInput, Run.ensures_andThen, Run.ensures_yield]
  have hone : ∃ v, v ∈ (1 : Language Char) := ⟨[], Language.nil_mem_one⟩
  refine (reads_river limit hone {} 0 hstart).mono ?_ (fun _ h => h.1) (fun _ h => h) id
  rintro v next s ⟨-, hs⟩
  refine hs.endOfInput.mono ?_ (fun _ h => h) (fun _ h => h.elim) False.elim
  rintro _ _ s' ⟨rfl, hs'⟩
  have hmem := hs'.sound [] Language.nil_mem_one
  rwa [List.append_nil, Input.before_size] at hmem

end StreamTypes.River
