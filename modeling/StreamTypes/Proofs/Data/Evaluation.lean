import StreamTypes.Data.Grammar
import StreamTypes.Proofs.Data.Derivation
import StreamTypes.Proofs.Peg.Room

/-!
# Reading a data type

In front of a text that has a derivation the rule reads exactly what is derived and yields
the type that is denoted, unless the type nests too deeply for one of the bounds. The
keyword tells which alternative of the grammar is taken, and what stands behind a member
tells where the member ends.

## Main statements

- `yields_anyForm` — the alternative that the keyword names is taken
- `yields_data` — reading a type
-/

namespace StreamTypes.Data

open Peg

variable {ν : Type} {ρ : Type → Type} {input : Input} {call : ∀ {α : Type}, ρ α → Run ν α}

/-! ### Forms -/

/-- The forms in the order in which they are tried. -/
def attempts : List Form :=
  [.struct, .tuple, .seq, .variant, .prim, .empty]

theorem mem_attempts (form : Form) : form ∈ attempts := by
  cases form <;> decide

/-- The expression for a form, inside which `data` reads the members. -/
def formOf (data : Parser ν ρ Data) : Form → Parser ν ρ Data
  | .struct => structForm data
  | .tuple => tupleForm data
  | .seq => seqForm data
  | .variant => variantForm data
  | .prim => primForm
  | .empty => emptyForm

theorem anyForm_eq (data : Parser ν ρ Data) :
    anyForm data = .choice (attempts.map (formOf data)) :=
  rfl

variable {data : Parser ν ρ Data} {form form' : Form} {w r : List Char} {n : Nat} {fits : Prop}
  {value : Data}

/-- In front of one form the other forms do not match. -/
theorem misses_formOf (hne : form' ≠ form) (v : List Char) :
    Misses input ((formOf data form').eval input call) (form.keyword.toList ++ v) := by
  have hkeyword : Misses (ν := ν) input (Run.literal input form'.keyword)
      (form.keyword.toList ++ v) := by
    refine Misses.literal ?_
    rintro ⟨u, hu⟩
    exact hne (form_eq_of_keyword hu)
  cases form' with
  | empty => exact hkeyword.andThen _
  | struct | tuple | seq | variant | prim => exact ((hkeyword.andThen _).andThen _).andThen _

/-- Where the text starts with the keyword of a form, the alternative for this form is
taken. -/
theorem yields_anyForm (hw : form.keyword.toList <+: w)
    (h : YieldsWithin input n fits ((formOf data form).eval input call) w r value) :
    YieldsWithin input n fits ((anyForm data).eval input call) w r value := by
  obtain ⟨v, rfl⟩ := hw
  rw [anyForm_eq]
  refine YieldsWithin.choice (mem_attempts form) (fun form' hne => ?_) h
  rw [List.append_assoc]
  exact misses_formOf hne _

/-! ### Types -/

/-- The rule reads the text and yields the type, unless the type nests too deeply. -/
def Yielded (input : Input) (limit : Nat) (d : Derivation) : Prop :=
  ∀ r, YieldsWithin input d.data.nesting (d.data.nesting < limit)
    (Parser.callWithin input rules limit Rule.data) d.text r d.data

/-- One round of the list of members. -/
def member (input : Input) (limit : Nat) : Run Empty Data :=
  (Parser.comma.eval input (Parser.callWithin input rules limit)).andThen fun _ =>
    Parser.callWithin input rules limit Rule.data

/-- A list with as many rounds as characters reads further members, which a bracket
closes. -/
def YieldedRest (input : Input) (limit : Nat) (m : Members) : Prop :=
  ∀ r rounds values, m.text.length < rounds →
    YieldsWithin input (nestingOfRest m.data) (nestingOfRest m.data < limit)
      (Run.repeated (member input limit) rounds values) m.text ('>' :: r)
      (values.reverse ++ m.data)

section
variable {limit : Nat} {d first : Derivation} {m rest : Members}

/-- The rule reads what the alternative for the form of the text reads. -/
theorem yielded_of_formOf
    (h : ∀ r, YieldsWithin input d.data.nesting (d.data.nesting < limit + 1)
      ((formOf (.ref Rule.data) d.form).eval input (Parser.callWithin input rules limit))
      d.text r d.data) : Yielded input (limit + 1) d := by
  intro r
  rw [Parser.callWithin_succ]
  obtain ⟨v, hv⟩ := d.text_eq_keyword []
  rw [List.append_nil] at hv
  exact yields_anyForm ⟨v, hv.symm⟩ (h r)

theorem yielded_empty : Yielded input (limit + 1) .empty := by
  refine yielded_of_formOf fun r => ?_
  have hkeyword : Yields (ν := Empty) input (Run.literal input Form.empty.keyword)
      Form.empty.keyword.toList r Form.empty.keyword := Yields.literal (keyword_ne_empty .empty) r
  exact (hkeyword.within.map fun _ => Data.empty).congr rfl (by simp [Derivation.data, nesting])

theorem yielded_prim {bits : Digits} (h : bits.Short) : Yielded input (limit + 1) (.prim bits) := by
  refine yielded_of_formOf fun r => ?_
  have hnumeral : Yields (ν := Empty) input (Run.unsigned input) bits.chars ('>' :: r) bits.value :=
    Yields.unsigned h.isNumeral (by simp)
  have hform : YieldsWithin input 0 True ((Parser.form Form.prim.keyword .unsigned).eval input
      (Parser.callWithin input rules limit)) (bracketed .prim bits.chars) r bits.value :=
    YieldsWithin.form (keyword_ne_empty .prim) hnumeral.within
  exact (hform.map Data.prim).congr rfl (by simp [Derivation.data, nesting])

theorem yielded_seq (h : Yielded input limit d) : Yielded input (limit + 1) (.seq d) := by
  refine yielded_of_formOf fun r => ?_
  have hform : YieldsWithin input (d.data.nesting + 1) (d.data.nesting < limit)
      ((Parser.form Form.seq.keyword (.nested (.ref Rule.data))).eval input
        (Parser.callWithin input rules limit)) (bracketed .seq d.text) r d.data :=
    YieldsWithin.form (keyword_ne_empty .seq) (h ('>' :: r)).deeper
  refine (hform.map Data.seq).congr ?_ ?_ <;> rw [Derivation.data, nesting] <;> omega

theorem yielded_tuple {gap : Gap} {count : Digits} (h : Yielded input limit d)
    (hcount : count.Short) : Yielded input (limit + 1) (.tuple d gap count) := by
  refine yielded_of_formOf fun r => ?_
  have hcomma : Yields (ν := Empty) input
      (Parser.comma.eval input (Parser.callWithin input rules limit))
      (',' :: gap.chars) (count.chars ++ '>' :: r) "," :=
    Yields.comma gap.isGap (count.isGap_head _)
  have hnumeral : Yields (ν := Empty) input (Run.unsigned input) count.chars ('>' :: r)
      count.value := Yields.unsigned hcount.isNumeral (by simp)
  have hinner := ((h _).both fun _ => (hcomma.both hnumeral).within).deeper
  have hform : YieldsWithin input (d.data.nesting + 1) (d.data.nesting < limit)
      ((Parser.form Form.tuple.keyword (.nested (.both (.ref Rule.data)
        (.both .comma .unsigned)))).eval input (Parser.callWithin input rules limit))
      (bracketed .tuple (d.text ++ ',' :: (gap.chars ++ count.chars))) r
      (d.data, ",", count.value) :=
    YieldsWithin.form (keyword_ne_empty .tuple) (hinner.congr (by simp) (and_iff_left trivial))
  refine (hform.map fun v => Data.tuple v.1 v.2.2).congr ?_ ?_ <;>
    rw [Derivation.data, nesting] <;> omega

/-- A form that holds a list of types. -/
theorem yields_row (form : Form) (hfirst : Yielded input limit first)
    (hrest : 0 < limit → YieldedRest input limit rest) (r : List Char) :
    YieldsWithin input (1 + max first.data.nesting (nestingOfRest rest.data))
      (1 + max first.data.nesting (nestingOfRest rest.data) < limit + 1)
      ((Parser.form form.keyword (.nested (.commaList (.ref Rule.data)))).eval input
        (Parser.callWithin input rules limit))
      (bracketed form (first.text ++ rest.text)) r (first.data, rest.data) := by
  have hlist : YieldsWithin input _ _ ((Parser.commaList (.ref Rule.data)).eval input
      (Parser.callWithin input rules limit)) _ _ (first.data, rest.data) :=
    YieldsWithin.commaList (hfirst (rest.text ++ '>' :: r)) fun hfits rounds hrounds =>
      hrest (Nat.zero_lt_of_lt hfits) r rounds [] hrounds
  refine (YieldsWithin.form (keyword_ne_empty form) hlist.deeper).congr ?_ ?_
  · omega
  · omega

theorem yieldedRest_nil (hlimit : 0 < limit) : YieldedRest input limit .nil := by
  intro r rounds values hrounds
  obtain ⟨rounds, rfl⟩ := Nat.exists_eq_add_of_lt hrounds
  have hmisses : Misses input (member input limit) ('>' :: r) :=
    Misses.andThen (Misses.comma (by simp)) _
  have hend := YieldsWithin.repeated_nil hmisses (0 + rounds) values
  rw [Members.data, List.append_nil]
  exact hend.congr rfl (iff_of_true trivial hlimit)

theorem yieldedRest_cons {gap : Gap} (h : Yielded input limit d)
    (hrest : YieldedRest input limit rest) : YieldedRest input limit (.cons gap d rest) := by
  intro r rounds values hrounds
  cases rounds with
  | zero => exact (Nat.not_lt_zero _ hrounds).elim
  | succ rounds =>
    have hcomma : Yields (ν := Empty) input
        (Parser.comma.eval input (Parser.callWithin input rules limit))
        (',' :: gap.chars) (d.text ++ (rest.text ++ '>' :: r)) "," :=
      Yields.comma gap.isGap (d.isGap_head _)
    have hround : YieldsWithin input _ _ (member input limit) _ _ d.data :=
      hcomma.within.andThen fun _ => h (rest.text ++ '>' :: r)
    have hlength : rest.text.length < rounds := by
      simp only [Members.text, List.length_cons, List.length_append] at hrounds
      omega
    have hlist := hround.repeated_cons fun _ => hrest r rounds (d.data :: values) hlength
    simp only [List.reverse_cons, List.append_assoc, List.cons_append, List.nil_append] at hlist
    refine hlist.congr ?_ ?_ <;> simp [Members.data, nestingOfRest]

end

mutual

/-- In front of a text that has a derivation the rule reads it and yields its type. -/
theorem yields_data (d : Derivation) (h : d.Short) : ∀ limit, Yielded input limit d := by
  intro limit
  cases limit with
  | zero => exact fun _ _ _ _ => Nat.not_lt_zero _
  | succ limit =>
    cases d with
    | empty => exact yielded_empty
    | prim bits => exact yielded_prim h
    | seq element => exact yielded_seq (yields_data element h limit)
    | tuple element gap count => exact yielded_tuple (yields_data element h.1 limit) h.2
    | struct first rest =>
      refine yielded_of_formOf fun r => ?_
      have hrow :=
        yields_row .struct (yields_data first h.1 limit) (yields_members rest h.2 limit) r
      exact hrow.map fun v => Data.struct v.1 v.2
    | variant first rest =>
      refine yielded_of_formOf fun r => ?_
      have hrow :=
        yields_row .variant (yields_data first h.1 limit) (yields_members rest h.2 limit) r
      exact hrow.map fun v => Data.variant v.1 v.2

/-- In front of further members a list reads them and yields their types. -/
theorem yields_members (m : Members) (h : m.Short) (limit : Nat) (hlimit : 0 < limit) :
    YieldedRest input limit m := by
  cases m with
  | nil => exact yieldedRest_nil hlimit
  | cons gap d rest =>
    exact yieldedRest_cons (yields_data d h.1 limit) (yields_members rest h.2 limit hlimit)

end

end StreamTypes.Data
