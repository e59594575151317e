import StreamTypes.Data.Basic
import StreamTypes.Proofs.Peg.Tracking

/-!
# Derivations of data types

How a text is derived from the grammar of data types, as a tree that holds every digit and
every space of the text. A tree determines its text and the type that it denotes. The
texts form a prefix code: which tree stands in front of a text can be told without knowing
where it ends, since a keyword tells the form, a bracket ends a numeral and a letter or a
digit ends a gap. So no text has two derivations, and since the canonical text of a type
has a derivation that denotes the type, no two types have the same canonical text.

## Main definitions

- `Derivation`, `Members` — derivations of types, and of further members
- `Derivation.text`, `Derivation.data` — what is derived, and what it denotes
- `Derivation.Short` — no numeral has too many digits
- `Data.derivation` — the derivation of a canonical text

## Main statements

- `Derivation.text_append_inj` — derivations are read off any text that begins with theirs
- `text_injective` — different types have different canonical texts
-/

namespace StreamTypes.Data

/-- A row of digits as it is written. -/
@[ext]
structure Digits where
  chars : List Char
  ne_nil : chars ≠ []
  isDigit : ∀ c ∈ chars, c.isDigit = true

/-- A row of spaces and tabs as it is written. -/
@[ext]
structure Gap where
  chars : List Char
  isGap : ∀ c ∈ chars, Peg.isGap c = true

/-- The forms of data types. -/
inductive Form where
  | struct
  | tuple
  | seq
  | variant
  | prim
  | empty
  deriving DecidableEq

def Form.keyword : Form → String
  | .struct => "Struct"
  | .tuple => "Tuple"
  | .seq => "Seq"
  | .variant => "Variant"
  | .prim => "Prim"
  | .empty => "Empty"

mutual

/-- How a text is derived as a type. -/
inductive Derivation where
  | empty
  | prim (bits : Digits)
  | seq (element : Derivation)
  | tuple (element : Derivation) (gap : Gap) (count : Digits)
  | struct (first : Derivation) (rest : Members)
  | variant (first : Derivation) (rest : Members)

/-- How a text is derived as further members, with a comma and a gap before each. -/
inductive Members where
  | nil
  | cons (gap : Gap) (member : Derivation) (rest : Members)

end

/-- A keyword and what stands in its brackets. -/
def bracketed (form : Form) (b : List Char) : List Char :=
  form.keyword.toList ++ '<' :: (b ++ ['>'])

def Derivation.form : Derivation → Form
  | .empty => .empty
  | .prim _ => .prim
  | .seq _ => .seq
  | .tuple _ _ _ => .tuple
  | .struct _ _ => .struct
  | .variant _ _ => .variant

mutual

/-- The text that is derived. -/
def Derivation.text : Derivation → List Char
  | .empty => Form.empty.keyword.toList
  | .prim bits => bracketed .prim bits.chars
  | .seq element => bracketed .seq element.text
  | .tuple element gap count =>
    bracketed .tuple (element.text ++ ',' :: (gap.chars ++ count.chars))
  | .struct first rest => bracketed .struct (first.text ++ rest.text)
  | .variant first rest => bracketed .variant (first.text ++ rest.text)

def Members.text : Members → List Char
  | .nil => []
  | .cons gap member rest => ',' :: (gap.chars ++ (member.text ++ rest.text))

end

def Digits.value (digits : Digits) : Nat :=
  Text.digitsValue digits.chars

mutual

/-- The type that the text denotes. -/
def Derivation.data : Derivation → Data
  | .empty => .empty
  | .prim bits => .prim bits.value
  | .seq element => .seq element.data
  | .tuple element _ count => .tuple element.data count.value
  | .struct first rest => .struct first.data rest.data
  | .variant first rest => .variant first.data rest.data

def Members.data : Members → List Data
  | .nil => []
  | .cons _ member rest => member.data :: rest.data

end

/-- The numeral can be read. -/
def Digits.Short (digits : Digits) : Prop :=
  digits.chars.length ≤ Text.numeralLimit

instance (digits : Digits) : Decidable digits.Short :=
  inferInstanceAs (Decidable (_ ≤ _))

mutual

/-- All numerals can be read. -/
def Derivation.Short : Derivation → Prop
  | .empty => True
  | .prim bits => bits.Short
  | .seq element => element.Short
  | .tuple element _ count => element.Short ∧ count.Short
  | .struct first rest | .variant first rest => first.Short ∧ rest.Short

def Members.Short : Members → Prop
  | .nil => True
  | .cons _ member rest => member.Short ∧ rest.Short

end

/-! ### Texts have one derivation -/

section
variable {form form' : Form} {b b' r r' : List Char}

theorem keyword_ne_empty (form : Form) : form.keyword ≠ "" := by
  cases form <;> decide

/-- A text starts with the keyword of one form only. -/
theorem form_eq_of_keyword
    (h : form.keyword.toList ++ r = form'.keyword.toList ++ r') : form = form' := by
  cases form <;> cases form' <;> first | rfl | simp [Form.keyword] at h

theorem bracketed_append_inj (h : bracketed form b ++ r = bracketed form b' ++ r') :
    b ++ '>' :: r = b' ++ '>' :: r' := by
  simpa [bracketed] using h

theorem Derivation.text_eq_keyword (d : Derivation) (r : List Char) :
    ∃ v, d.text ++ r = d.form.keyword.toList ++ v := by
  cases d with
  | empty => exact ⟨r, rfl⟩
  | prim | seq | tuple | struct | variant => exact ⟨_, List.append_assoc _ _ r⟩

theorem Derivation.isGap_head (d : Derivation) (r : List Char) :
    ∀ c ∈ (d.text ++ r).head?, Peg.isGap c = false := by
  obtain ⟨v, hv⟩ := d.text_eq_keyword r
  rw [hv]
  cases d.form <;> simp [Form.keyword, Peg.isGap]

theorem Digits.isGap_head (digits : Digits) (r : List Char) :
    ∀ c ∈ (digits.chars ++ r).head?, Peg.isGap c = false := by
  intro c hc
  rw [List.head?_append_of_ne_nil _ digits.ne_nil] at hc
  have hdigit := digits.isDigit c (List.mem_of_mem_head? hc)
  by_contra hgap
  rw [Peg.isDigit_eq_false_of_gap (.inr (Bool.eq_true_of_not_eq_false hgap))] at hdigit
  cases hdigit

theorem Digits.append_inj {digits digits' : Digits}
    (h : digits.chars ++ '>' :: r = digits'.chars ++ '>' :: r') : digits = digits' ∧ r = r' := by
  have hclose : ∀ d : Digits, '>' ∉ d.chars := fun d hmem =>
    absurd (d.isDigit '>' hmem) (by decide)
  obtain ⟨hchars, hrest⟩ := Text.append_cons_inj (hclose digits) (hclose digits') h
  exact ⟨Digits.ext hchars, hrest⟩

/-- A gap is read off a text that goes on with something else. -/
theorem Gap.append_inj {gap gap' : Gap} (hr : ∀ c ∈ r.head?, Peg.isGap c = false)
    (hr' : ∀ c ∈ r'.head?, Peg.isGap c = false) (h : gap.chars ++ r = gap'.chars ++ r') :
    gap = gap' ∧ r = r' := by
  have hchars : gap.chars = gap'.chars := by
    rw [← Peg.takeWhile_append_of_head gap.isGap hr, h,
      Peg.takeWhile_append_of_head gap'.isGap hr']
  rw [hchars] at h
  exact ⟨Gap.ext hchars, List.append_cancel_left h⟩

end

theorem row_append_inj {d d' : Derivation} {m m' : Members} {r r' : List Char}
    (hfirst : ∀ {r r' : List Char}, d.text ++ r = d'.text ++ r' → d = d' ∧ r = r')
    (hmore : m.text ++ '>' :: r = m'.text ++ '>' :: r' → m = m' ∧ r = r')
    (h : d.text ++ m.text ++ '>' :: r = d'.text ++ m'.text ++ '>' :: r') :
    d = d' ∧ m = m' ∧ r = r' := by
  rw [List.append_assoc, List.append_assoc] at h
  obtain ⟨hd, hrest⟩ := hfirst h
  exact ⟨hd, hmore hrest⟩

mutual

/-- A derivation is read off any text that begins with what is derived. -/
theorem Derivation.text_append_inj {d d' : Derivation} {r r' : List Char}
    (h : d.text ++ r = d'.text ++ r') : d = d' ∧ r = r' := by
  have hform : d.form = d'.form := by
    obtain ⟨v, hv⟩ := d.text_eq_keyword r
    obtain ⟨v', hv'⟩ := d'.text_eq_keyword r'
    rw [hv, hv'] at h
    exact form_eq_of_keyword h
  cases d with
  | empty =>
    cases d' with
    | empty => exact ⟨rfl, List.append_cancel_left h⟩
    | _ => cases hform
  | prim bits =>
    cases d' with
    | prim bits' =>
      obtain ⟨rfl, hrest⟩ := Digits.append_inj (bracketed_append_inj h)
      exact ⟨rfl, hrest⟩
    | _ => cases hform
  | seq element =>
    cases d' with
    | seq element' =>
      obtain ⟨rfl, hrest⟩ := Derivation.text_append_inj (bracketed_append_inj h)
      exact ⟨rfl, (List.cons.inj hrest).2⟩
    | _ => cases hform
  | tuple element gap count =>
    cases d' with
    | tuple element' gap' count' =>
      have hinner := bracketed_append_inj h
      simp only [List.append_assoc, List.cons_append] at hinner
      obtain ⟨rfl, hcomma⟩ := Derivation.text_append_inj hinner
      obtain ⟨rfl, hcount⟩ := Gap.append_inj (count.isGap_head _) (count'.isGap_head _)
        (List.cons.inj hcomma).2
      obtain ⟨rfl, hrest⟩ := Digits.append_inj hcount
      exact ⟨rfl, hrest⟩
    | _ => cases hform
  | struct first rest =>
    cases d' with
    | struct first' rest' =>
      obtain ⟨rfl, rfl, hrest⟩ := row_append_inj Derivation.text_append_inj
        Members.text_append_inj (bracketed_append_inj h)
      exact ⟨rfl, hrest⟩
    | _ => cases hform
  | variant first rest =>
    cases d' with
    | variant first' rest' =>
      obtain ⟨rfl, rfl, hrest⟩ := row_append_inj Derivation.text_append_inj
        Members.text_append_inj (bracketed_append_inj h)
      exact ⟨rfl, hrest⟩
    | _ => cases hform

/-- Further members are read off a text in which a bracket closes them. -/
theorem Members.text_append_inj {m m' : Members} {r r' : List Char}
    (h : m.text ++ '>' :: r = m'.text ++ '>' :: r') : m = m' ∧ r = r' := by
  cases m with
  | nil =>
    cases m' with
    | nil => exact ⟨rfl, (List.cons.inj h).2⟩
    | cons => cases h
  | cons gap member rest =>
    cases m' with
    | nil => cases h
    | cons gap' member' rest' =>
      simp only [Members.text, List.cons_append, List.append_assoc, List.cons.injEq] at h
      obtain ⟨rfl, hmember⟩ := Gap.append_inj (member.isGap_head _) (member'.isGap_head _) h.2
      obtain ⟨rfl, hmore⟩ := Derivation.text_append_inj hmember
      obtain ⟨rfl, hrest⟩ := Members.text_append_inj hmore
      exact ⟨rfl, hrest⟩

end

/-- No text has two derivations. -/
theorem Derivation.text_inj {d d' : Derivation} (h : d.text = d'.text) : d = d' := by
  have htexts : d.text ++ [] = d'.text ++ [] := by rw [h]
  exact (Derivation.text_append_inj htexts).1

/-! ### Canonical texts -/

/-- The decimal digits of a number. -/
def Digits.ofNat (n : Nat) : Digits where
  chars := n.repr.toList
  ne_nil := by
    rw [Nat.toList_repr]
    exact Nat.toDigits_ne_nil
  isDigit _ := Text.isDigit_of_mem_repr

theorem Digits.value_ofNat (n : Nat) : (Digits.ofNat n).value = n := by
  change Text.digitsValue n.repr.toList = n
  rw [Nat.toList_repr]
  exact Nat.ofDigitChars_ten_toDigits

theorem Digits.short_ofNat {n : Nat} : (Digits.ofNat n).Short ↔ n < 10 ^ Text.numeralLimit := by
  change n.repr.toList.length ≤ Text.numeralLimit ↔ _
  rw [Nat.toList_repr]
  exact Nat.length_toDigits_le_iff (by decide) (by decide)

/-- A single space. -/
def Gap.space : Gap :=
  ⟨[' '], Peg.space_mem_gaps⟩

mutual

/-- How the canonical text of a type is derived. -/
def derivation : Data → Derivation
  | .empty => .empty
  | .prim bits => .prim (.ofNat bits)
  | .struct first rest => .struct first.derivation (derivationOfRest rest)
  | .tuple element count => .tuple element.derivation .space (.ofNat count)
  | .seq element => .seq element.derivation
  | .variant first rest => .variant first.derivation (derivationOfRest rest)

def derivationOfRest : List Data → Members
  | [] => .nil
  | data :: rest => .cons .space data.derivation (derivationOfRest rest)

end

mutual

theorem text_derivation (data : Data) : data.derivation.text = data.text.toList := by
  cases data with
  | empty => rfl
  | prim bits => simp [derivation, Derivation.text, text, bracketed, Form.keyword, Digits.ofNat]
  | seq element =>
    simp [derivation, Derivation.text, text, bracketed, Form.keyword, text_derivation element]
  | tuple element count =>
    simp [derivation, Derivation.text, text, bracketed, Form.keyword, text_derivation element,
      Digits.ofNat, Gap.space]
  | struct first rest | variant first rest =>
    simp [derivation, Derivation.text, text, bracketed, Form.keyword, text_derivation first,
      text_derivationOfRest rest]

theorem text_derivationOfRest (rest : List Data) :
    (derivationOfRest rest).text = (textOfRest rest).toList := by
  cases rest with
  | nil => rfl
  | cons data rest =>
    simp [derivationOfRest, Members.text, textOfRest, text_derivation data,
      text_derivationOfRest rest, Gap.space]

end

mutual

/-- The canonical text of a type denotes the type. -/
theorem data_derivation (data : Data) : data.derivation.data = data := by
  cases data with
  | empty => rfl
  | prim bits => rw [derivation, Derivation.data, Digits.value_ofNat]
  | seq element => rw [derivation, Derivation.data, data_derivation element]
  | tuple element count =>
    rw [derivation, Derivation.data, data_derivation element, Digits.value_ofNat]
  | struct first rest | variant first rest =>
    rw [derivation, Derivation.data, data_derivation first, data_derivationOfRest rest]

theorem data_derivationOfRest (rest : List Data) : (derivationOfRest rest).data = rest := by
  cases rest with
  | nil => rfl
  | cons data rest =>
    rw [derivationOfRest, Members.data, data_derivation data, data_derivationOfRest rest]

end

/-- Different types have different canonical texts. -/
theorem text_injective : Function.Injective text := by
  intro data data' h
  have hderivation : data.derivation = data'.derivation := by
    refine Derivation.text_inj ?_
    rw [text_derivation, text_derivation, h]
  rw [← data_derivation data, hderivation, data_derivation data']

/-! ### Numbers -/

mutual

/-- The numbers that are written in a type. -/
def numbers : Data → List Nat
  | .empty => []
  | .prim bits => [bits]
  | .struct first rest | .variant first rest => first.numbers ++ numbersOfRest rest
  | .tuple element count => element.numbers ++ [count]
  | .seq element => element.numbers

/-- The numbers that are written in the types of a list. -/
def numbersOfRest : List Data → List Nat
  | [] => []
  | data :: rest => data.numbers ++ numbersOfRest rest

end

mutual

/-- The canonical text of a type can be read if no number has too many digits. -/
theorem short_derivation (data : Data) :
    data.derivation.Short ↔ ∀ n ∈ data.numbers, n < 10 ^ Text.numeralLimit := by
  cases data with
  | empty => simp [derivation, Derivation.Short, numbers]
  | prim bits => simp [derivation, Derivation.Short, numbers, Digits.short_ofNat]
  | seq element => simpa only [derivation, Derivation.Short, numbers] using short_derivation element
  | tuple element count =>
    simp [derivation, Derivation.Short, numbers, Digits.short_ofNat, short_derivation element,
      or_imp, forall_and]
  | struct first rest | variant first rest =>
    simp [derivation, Derivation.Short, numbers, short_derivation first,
      short_derivationOfRest rest, or_imp, forall_and]

theorem short_derivationOfRest (rest : List Data) :
    (derivationOfRest rest).Short ↔ ∀ n ∈ numbersOfRest rest, n < 10 ^ Text.numeralLimit := by
  cases rest with
  | nil => simp [derivationOfRest, Members.Short, numbersOfRest]
  | cons data rest =>
    simp [derivationOfRest, Members.Short, numbersOfRest, short_derivation data,
      short_derivationOfRest rest, or_imp, forall_and]

end

theorem Digits.Short.isNumeral {digits : Digits} (h : digits.Short) :
    Text.IsNumeral digits.chars digits.value :=
  ⟨digits.ne_nil, h, digits.isDigit, rfl⟩

mutual

/-- Numerals that can be read stand for numbers that can be written. -/
theorem Derivation.Short.numbers_lt {d : Derivation} (h : d.Short) :
    ∀ n ∈ d.data.numbers, n < 10 ^ Text.numeralLimit := by
  cases d with
  | empty => nofun
  | prim bits => simpa [Derivation.data, numbers] using (Digits.Short.isNumeral h).lt
  | seq element => exact Derivation.Short.numbers_lt (d := element) h
  | tuple element gap count =>
    simpa [Derivation.data, numbers, or_imp, forall_and] using
      And.intro (Derivation.Short.numbers_lt h.1) (Digits.Short.isNumeral h.2).lt
  | struct first rest | variant first rest =>
    simpa [Derivation.data, numbers, or_imp, forall_and] using
      And.intro (Derivation.Short.numbers_lt h.1) (Members.Short.numbers_lt h.2)

theorem Members.Short.numbers_lt {m : Members} (h : m.Short) :
    ∀ n ∈ numbersOfRest m.data, n < 10 ^ Text.numeralLimit := by
  cases m with
  | nil => nofun
  | cons gap member rest =>
    simpa [Members.data, numbersOfRest, or_imp, forall_and] using
      And.intro (Derivation.Short.numbers_lt h.1) (Members.Short.numbers_lt h.2)

end

end StreamTypes.Data
