import StreamTypes.River.Grammar
import StreamTypes.River.Term
import StreamTypes.Proofs.Peg.Tracking
import Mathlib.Tactic.FinCases

/-!
# River expressions as a grammar

The texts that are River expressions, and the type that each of them denotes, as a
relation that is derived form by form. Nothing here says how a text is read. The
parameters of a wrapping form are taken in order: the first comma after the number of
elements introduces the complexity and the second one the user bits, and a comma with
nothing behind it adds nothing.

For error reports the same grammar is needed as a language, split into what stands
first and what stands behind it.

## Main definitions

- `Expression` — a text denotes a type
- `Arguments` — what follows the child of a wrapping form, and the parameters it denotes
- `Term.nesting` — how many forms other than `Bits` are nested in one another
- `expressions`, `alternatives` — the language of all expressions, and of those of
  some kinds

## Main statements

- `expressions_eq` — every expression is of one of the kinds that are tried
- `arguments_eq`, `members_eq` — what follows a first member, as a language
- `lexicon` — no literal of the grammar starts with another one or with a digit
- `kind_eq_of_keyword` — the first keyword of a text tells its kind
-/

namespace StreamTypes.River

open Peg

/-- What may stand behind a comma that introduces a later parameter. -/
inductive Field : Option Nat → List Char → Prop
  | empty : Field none []
  | written {n : Nat} {w : List Char} : Text.IsNumeral w n → Field (some n) w

/-- What may follow the child of a wrapping form, and the parameters it denotes. -/
inductive Arguments : Params → List Char → Prop
  | absent : Arguments {} []
  | empty {g : List Char} : g ∈ gaps → Arguments {} (',' :: g)
  | elements {n : Nat} {g w : List Char} :
      g ∈ gaps → Text.IsNumeral w n → Arguments ⟨some n, none, none⟩ (',' :: (g ++ w))
  | complexity {n : Nat} {c : Option Nat} {g w g' w' : List Char} :
      g ∈ gaps → Text.IsNumeral w n → g' ∈ gaps → Field c w' →
      Arguments ⟨some n, c, none⟩ (',' :: (g ++ (w ++ ',' :: (g' ++ w'))))
  | userbits {n : Nat} {c u : Option Nat} {g w g' w' g'' w'' : List Char} :
      g ∈ gaps → Text.IsNumeral w n → g' ∈ gaps → Field c w' → g'' ∈ gaps → Field u w'' →
      Arguments ⟨some n, c, u⟩
        (',' :: (g ++ (w ++ ',' :: (g' ++ (w' ++ ',' :: (g'' ++ w''))))))

/-- A keyword and what stands in its brackets. -/
def enclosed (kind : Kind) (b : List Char) : List Char :=
  kind.keyword.toList ++ '<' :: (b ++ ['>'])

mutual

/-- The text is an expression for the type. -/
inductive Expression : Term → List Char → Prop
  | bits {n : Nat} {w : List Char} :
      Text.IsNumeral w n → Expression (.bits n) (enclosed .bits w)
  | wrap {wrapper : Wrapper} {child : Term} {params : Params} {w a : List Char} :
      Expression child w → Arguments params a →
      Expression (.wrap wrapper child params) (enclosed (.wrap wrapper) (w ++ a))
  | collect {collection : Collection} {first : Term} {rest : List Term} {w a : List Char} :
      Expression first w → Members rest a →
      Expression (.collect collection first rest) (enclosed (.collect collection) (w ++ a))

/-- The text holds further members of a collecting form, a comma before each. -/
inductive Members : List Term → List Char → Prop
  | nil : Members [] []
  | cons {term : Term} {terms : List Term} {g w a : List Char} :
      g ∈ gaps → Expression term w → Members terms a →
      Members (term :: terms) (',' :: (g ++ (w ++ a)))

end

namespace Term

mutual

/-- How many forms other than `Bits` are nested in one another. -/
def nesting : Term → Nat
  | .bits _ => 0
  | .wrap _ child _ => child.nesting + 1
  | .collect _ first rest => max first.nesting (nestingOfRest rest) + 1

/-- The deepest nesting in a list of types. -/
def nestingOfRest : List Term → Nat
  | [] => 0
  | term :: terms => max term.nesting (nestingOfRest terms)

end

/-- What holds of a form when it holds of its members holds of every type. -/
theorem induction {P : Term → Prop} (bits : ∀ width, P (.bits width))
    (wrap : ∀ wrapper child params, P child → P (.wrap wrapper child params))
    (collect : ∀ collection first rest, P first → (∀ t ∈ rest, P t) →
      P (.collect collection first rest)) : ∀ t, P t
  | .bits width => bits width
  | .wrap wrapper child params =>
    wrap wrapper child params (induction bits wrap collect child)
  | .collect collection first rest =>
    collect collection first rest (induction bits wrap collect first)
      fun t _ => induction bits wrap collect t

theorem depthOfRest_eq (terms : List Term) (h : ∀ t ∈ terms, t.depth = t.nesting + 1) (n : Nat) :
    max (n + 1) (depthOfRest terms) = max n (nestingOfRest terms) + 1 := by
  induction terms generalizing n with
  | nil => simp [depthOfRest, nestingOfRest]
  | cons t terms ih =>
    have ht := h t (by simp)
    have hrest := ih (fun u hu => h u (by simp [hu])) (max n t.nesting)
    rw [depthOfRest, nestingOfRest, ht]
    omega

/-- The longest branch of a type ends with a `Bits`, which does not count as nested. -/
theorem depth_eq_nesting (t : Term) : t.depth = t.nesting + 1 := by
  induction t using Term.induction with
  | bits width => rfl
  | wrap wrapper child params ih => rw [depth, nesting, ih, Nat.add_comm]
  | collect collection first rest ih ihs =>
    rw [depth, nesting, ih, depthOfRest_eq rest ihs, Nat.add_comm]

end Term

/-! ### The language of expressions -/

/-- What may stand behind a comma that introduces a later parameter. -/
def fields : Language Char :=
  {w | ∃ field, Field field w}

/-- What may follow the child of a wrapping form. -/
def arguments : Language Char :=
  {w | ∃ params, Arguments params w}

/-- What may follow the first member of a collecting form. -/
def members : Language Char :=
  {w | ∃ terms, Members terms w}

/-- All expressions. -/
def expressions : Language Char :=
  {w | ∃ term, Expression term w}

/-- What stands in the brackets of a form. -/
def bodies : Kind → Language Char
  | .bits => numerals
  | .wrap _ => expressions * arguments
  | .collect _ => expressions * members

/-- The expressions of some kinds. -/
def alternatives (kinds : List Kind) : Language Char :=
  {w | ∃ kind ∈ kinds, ∃ b ∈ bodies kind, w = enclosed kind b}

/-- The kinds in the order in which they are tried. -/
def attempts : List Kind :=
  [.collect .union, .wrap .rev, .wrap .flat, .wrap .new, .wrap .dim, .collect .group,
    .wrap .root, .bits]

theorem mem_attempts (kind : Kind) : kind ∈ attempts := by
  rcases kind with _ | (_ | _ | _ | _ | _) | (_ | _) <;> decide

/-- The form of a kind, inside which `river` reads the members. -/
def formOf {ν : Type} {ρ : Type → Type} (store : Node Nat → ν) (river : Parser ν ρ Nat) :
    Kind → Parser ν ρ Nat
  | .bits => bitsForm store
  | .wrap wrapper => wrapForm store river wrapper
  | .collect collection => collectForm store river collection

theorem anyForm_eq {ν : Type} {ρ : Type → Type} (store : Node Nat → ν)
    (river : Parser ν ρ Nat) :
    anyForm store river = .choice (attempts.map (formOf store river)) :=
  rfl

theorem expressions_eq : expressions = alternatives attempts := by
  ext w
  constructor
  · rintro ⟨_, h⟩
    cases h with
    | bits hw => exact ⟨.bits, mem_attempts _, _, ⟨_, hw⟩, rfl⟩
    | wrap hw ha =>
      exact ⟨.wrap _, mem_attempts _, _, Language.append_mem_mul ⟨_, hw⟩ ⟨_, ha⟩, rfl⟩
    | collect hw ha =>
      exact ⟨.collect _, mem_attempts _, _, Language.append_mem_mul ⟨_, hw⟩ ⟨_, ha⟩, rfl⟩
  · rintro ⟨kind, -, b, hb, rfl⟩
    cases kind with
    | bits =>
      obtain ⟨n, hw⟩ := hb
      exact ⟨_, .bits hw⟩
    | wrap wrapper =>
      obtain ⟨w, ⟨_, hw⟩, a, ⟨_, ha⟩, rfl⟩ := Language.mem_mul.1 hb
      exact ⟨_, .wrap hw ha⟩
    | collect collection =>
      obtain ⟨w, ⟨_, hw⟩, a, ⟨_, ha⟩, rfl⟩ := Language.mem_mul.1 hb
      exact ⟨_, .collect hw ha⟩

section
variable (K : Language Char)

theorem alternatives_nil_mul : alternatives [] * K = 0 := by
  ext w
  rw [Language.mem_mul]
  constructor
  · rintro ⟨_, ⟨kind, hkind, -⟩, -⟩
    simp at hkind
  · intro h
    exact (Language.notMem_zero w h).elim

theorem alternatives_cons_mul (kind : Kind) (kinds : List Kind) :
    alternatives (kind :: kinds) * K =
      {kind.keyword.toList} * ({['<']} * (bodies kind * ({['>']} * K))) +
        alternatives kinds * K := by
  ext w
  constructor
  · intro h
    obtain ⟨_, ⟨kind', hkind, b, hb, rfl⟩, k, hk, rfl⟩ := Language.mem_mul.1 h
    rcases List.mem_cons.1 hkind with rfl | hkind
    · refine .inl (mem_word_mul.2 ⟨'<' :: (b ++ '>' :: k), ?_, by simp [enclosed]⟩)
      refine mem_word_mul.2 ⟨b ++ '>' :: k, Language.append_mem_mul hb ?_, rfl⟩
      exact mem_word_mul.2 ⟨k, hk, rfl⟩
    · exact .inr (Language.append_mem_mul ⟨kind', hkind, b, hb, rfl⟩ hk)
  · rintro (h | h)
    · obtain ⟨_, h₁, rfl⟩ := mem_word_mul.1 h
      obtain ⟨_, h₂, rfl⟩ := mem_word_mul.1 h₁
      obtain ⟨b, hb, _, h₃, rfl⟩ := Language.mem_mul.1 h₂
      obtain ⟨k, hk, rfl⟩ := mem_word_mul.1 h₃
      refine Language.mem_mul.2 ⟨enclosed kind b, ⟨kind, by simp, b, hb, rfl⟩, k, hk, ?_⟩
      simp [enclosed]
    · obtain ⟨_, ⟨kind', hkind, b, hb, rfl⟩, k, hk, rfl⟩ := Language.mem_mul.1 h
      exact Language.append_mem_mul ⟨kind', by simp [hkind], b, hb, rfl⟩ hk

end

theorem fields_eq : fields = numerals + 1 := by
  ext w
  constructor
  · rintro ⟨_, _ | hw⟩
    · exact .inr rfl
    · exact .inl ⟨_, hw⟩
  · rintro (⟨n, hw⟩ | hw)
    · exact ⟨some n, .written hw⟩
    · exact ⟨none, (Language.mem_one w).1 hw ▸ .empty⟩

theorem members_eq : members = {[',']} * (gaps * (expressions * members)) + 1 := by
  ext w
  constructor
  · rintro ⟨_, _ | ⟨hg, hw, ha⟩⟩
    · exact .inr rfl
    · exact .inl (mem_comma_mul.2 ⟨_, hg, _, Language.append_mem_mul ⟨_, hw⟩ ⟨_, ha⟩, rfl⟩)
  · rintro (h | h)
    · obtain ⟨g, hg, _, hmore, rfl⟩ := mem_comma_mul.1 h
      obtain ⟨w, ⟨_, hw⟩, a, ⟨_, ha⟩, rfl⟩ := Language.mem_mul.1 hmore
      exact ⟨_, .cons hg hw ha⟩
    · exact ⟨[], (Language.mem_one w).1 h ▸ .nil⟩

/-- A comma, a gap and a later parameter, or nothing. -/
def laterFields : Language Char :=
  {[',']} * (gaps * fields) + 1

theorem mem_laterFields {w : List Char} :
    w ∈ laterFields ↔
      w = [] ∨ ∃ g ∈ gaps, ∃ field w', Field field w' ∧ w = ',' :: (g ++ w') := by
  constructor
  · rintro (h | h)
    · obtain ⟨g, hg, w', ⟨field, hw'⟩, rfl⟩ := mem_comma_mul.1 h
      exact .inr ⟨g, hg, field, w', hw', rfl⟩
    · exact .inl ((Language.mem_one w).1 h)
  · rintro (rfl | ⟨g, hg, field, w', hw', rfl⟩)
    · exact .inr rfl
    · exact .inl (mem_comma_mul.2 ⟨g, hg, w', ⟨field, hw'⟩, rfl⟩)

/-- Parameters are a numeral and two later fields. Where only one of the fields is
there it does not matter which of the two it is taken for. -/
theorem arguments_eq :
    arguments = {[',']} * (gaps * (numerals * (laterFields * laterFields) + 1)) + 1 := by
  have hwritten : ∀ {g w x y : List Char} {n : Nat}, g ∈ gaps → Text.IsNumeral w n →
      x ∈ laterFields → y ∈ laterFields → ',' :: (g ++ (w ++ (x ++ y))) ∈
        ({[',']} * (gaps * (numerals * (laterFields * laterFields) + 1)) + 1 :
          Language Char) := fun hg hw hx hy =>
    .inl (mem_comma_mul.2 ⟨_, hg, _,
      .inl (Language.append_mem_mul ⟨_, hw⟩ (Language.append_mem_mul hx hy)), rfl⟩)
  have hnone : [] ∈ laterFields := mem_laterFields.2 (.inl rfl)
  have hlater : ∀ {g w : List Char} {field : Option Nat}, g ∈ gaps → Field field w →
      ',' :: (g ++ w) ∈ laterFields := fun hg hw =>
    mem_laterFields.2 (.inr ⟨_, hg, _, _, hw, rfl⟩)
  ext w
  constructor
  · rintro ⟨_, h⟩
    cases h with
    | absent => exact .inr rfl
    | empty hg => exact .inl (mem_comma_mul.2 ⟨_, hg, [], .inr rfl, by simp⟩)
    | elements hg hw => simpa using hwritten hg hw hnone hnone
    | complexity hg hw hg' hc => simpa using hwritten hg hw (hlater hg' hc) hnone
    | userbits hg hw hg' hc hg'' hu =>
      simpa using hwritten hg hw (hlater hg' hc) (hlater hg'' hu)
  · rintro (h | h)
    · obtain ⟨g, hg, _, hparams | hparams, rfl⟩ := mem_comma_mul.1 h
      · obtain ⟨w, ⟨n, hw⟩, _, hfields, rfl⟩ := Language.mem_mul.1 hparams
        obtain ⟨x, hx, y, hy, rfl⟩ := Language.mem_mul.1 hfields
        rcases mem_laterFields.1 hx with rfl | ⟨g', hg', c, w', hc, rfl⟩
        · -- the only later field counts as the complexity
          rcases mem_laterFields.1 hy with rfl | ⟨g'', hg'', u, w'', hu, rfl⟩
          · exact ⟨_, by simpa using Arguments.elements hg hw⟩
          · exact ⟨_, by simpa using Arguments.complexity hg hw hg'' hu⟩
        · rcases mem_laterFields.1 hy with rfl | ⟨g'', hg'', u, w'', hu, rfl⟩
          · exact ⟨_, by simpa using Arguments.complexity hg hw hg' hc⟩
          · exact ⟨_, by simpa using Arguments.userbits hg hw hg' hc hg'' hu⟩
      · obtain rfl := (Language.mem_one _).1 hparams
        exact ⟨_, by simpa using Arguments.empty hg⟩
    · exact ⟨{}, (Language.mem_one w).1 h ▸ .absent⟩

/-! ### Literals -/

/-- The literals of the grammar. -/
def tokens : List String :=
  Kind.all.map Kind.keyword ++ ["<", ">", ","]

theorem lexicon : Lexicon tokens := by
  refine ⟨by decide +kernel, fun t ht => ?_⟩
  fin_cases ht <;> exact ⟨_, _, rfl, by decide⟩

theorem keyword_mem_tokens (kind : Kind) : kind.keyword ∈ tokens := by
  refine List.mem_append_left _ (List.mem_map_of_mem ?_)
  rcases kind with _ | (_ | _ | _ | _ | _) | (_ | _) <;> decide

theorem closes_keyword (kind : Kind) : Closes kind.keyword := by
  rcases kind with _ | (_ | _ | _ | _ | _) | (_ | _) <;>
    exact ⟨_, rfl, by decide, by decide, by decide⟩

theorem keyword_ne_empty (kind : Kind) : kind.keyword ≠ "" := by
  rcases kind with _ | (_ | _ | _ | _ | _) | (_ | _) <;> decide

theorem keyword_injective {kind kind' : Kind} (h : kind.keyword = kind'.keyword) :
    kind = kind' := by
  rcases kind with _ | (_ | _ | _ | _ | _) | (_ | _) <;>
    rcases kind' with _ | (_ | _ | _ | _ | _) | (_ | _) <;>
      first | rfl | exact absurd h (by decide)

/-- A text starts with the keyword of one kind only. -/
theorem kind_eq_of_keyword {kind kind' : Kind} {r : List Char}
    (h : kind.keyword.toList <+: kind'.keyword.toList ++ r) : kind = kind' := by
  refine keyword_injective ?_
  rcases List.prefix_or_prefix_of_prefix h (List.prefix_append _ _) with h | h
  · exact lexicon.distinct _ (keyword_mem_tokens kind) _ (keyword_mem_tokens kind') h
  · exact (lexicon.distinct _ (keyword_mem_tokens kind') _ (keyword_mem_tokens kind) h).symm

theorem exists_enclosed {t : Term} {w : List Char} (h : Expression t w) :
    ∃ kind b, w = enclosed kind b := by
  cases h <;> exact ⟨_, _, rfl⟩

/-- An expression starts with a keyword, which does not start like a gap. -/
theorem isGap_head_of_expression {t : Term} {w : List Char} (h : Expression t w)
    (r : List Char) : ∀ c ∈ (w ++ r).head?, isGap c = false := by
  obtain ⟨kind, b, rfl⟩ := exists_enclosed h
  obtain ⟨c, w, hc, hgap⟩ : ∃ c w, kind.keyword.toList = c :: w ∧ isGap c = false := by
    rcases kind with _ | (_ | _ | _ | _ | _) | (_ | _) <;> exact ⟨_, _, rfl, by decide⟩
  intro d hd
  rw [enclosed, hc] at hd
  rwa [← Option.mem_some_iff.1 hd]

end StreamTypes.River
