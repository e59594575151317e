import StreamTypes.Proofs.Data.Evaluation
import StreamTypes.Proofs.Peg.Termination
import StreamTypes.Proofs.Peg.Words

/-!
# Which data types are accepted

A parse gives a type exactly for the texts that have a derivation whose numerals are short
enough and that nests within the bounds, and it gives the type that the derivation
denotes. Canonical texts have such derivations, so they are read back.

## Main statements

- `data_spells` — what the rule reads has a derivation
- `parseWithin_eq_ok_iff` — which texts are accepted, and as what
- `grammar_exact` — the same where there is room for all references
- `canonical_text_read_back` — the canonical text of a type is read as this type
-/

namespace StreamTypes.Data

open Peg

open scoped Computability

/-! ### What is read has a derivation -/

/-- The texts that have a derivation with numerals that can be read. -/
def derivable : Language Char :=
  {w | ∃ d : Derivation, d.Short ∧ d.text = w}

section
variable {ρ : Type → Type} {ν : Type} {W : ∀ {α : Type}, ρ α → Language Char}
  {data : Parser ν ρ Data} {w : List Char}

theorem exists_digits (h : w ∈ numerals) : ∃ digits : Digits, digits.Short ∧ digits.chars = w := by
  obtain ⟨n, hw⟩ := h
  exact ⟨⟨w, hw.ne_nil, hw.isDigit⟩, hw.length_le, rfl⟩

/-- Rounds of a list are further members. -/
theorem exists_members (hdata : data.words W = derivable)
    (hw : w ∈ ((Parser.comma : Parser ν ρ String).words W * data.words W)∗) :
    ∃ m : Members, m.Short ∧ m.text = w := by
  obtain ⟨rounds, rfl, hrounds⟩ := Language.mem_kstar.1 hw
  clear hw
  induction rounds with
  | nil => exact ⟨.nil, trivial, rfl⟩
  | cons round rounds ih =>
    obtain ⟨m, hm, hmore⟩ := ih fun y hy => hrounds y (List.mem_cons_of_mem _ hy)
    obtain ⟨_, hcomma, _, hmember, rfl⟩ := Language.mem_mul.1 (hrounds round List.mem_cons_self)
    obtain ⟨_, rfl, g, hg, rfl⟩ := Language.mem_mul.1 hcomma
    rw [hdata] at hmember
    obtain ⟨d, hd, rfl⟩ := hmember
    refine ⟨.cons ⟨g, hg⟩ d m, ⟨hd, hm⟩, ?_⟩
    simp [Members.text, hmore]

theorem exists_row (hdata : data.words W = derivable)
    (hw : w ∈ (Parser.commaList data).words W) :
    ∃ d : Derivation, ∃ m : Members, (d.Short ∧ m.Short) ∧ d.text ++ m.text = w := by
  obtain ⟨_, hfirst, _, hmore, rfl⟩ := Language.mem_mul.1 hw
  obtain ⟨d, hd, rfl⟩ := hdata.le hfirst
  obtain ⟨m, hm, rfl⟩ := exists_members hdata hmore
  exact ⟨d, m, ⟨hd, hm⟩, rfl⟩

theorem words_formOf_le (hdata : data.words W = derivable) (form : Form) :
    (formOf data form).words W ≤ derivable := by
  intro w hw
  cases form with
  | empty => exact ⟨.empty, trivial, Eq.symm hw⟩
  | prim =>
    obtain ⟨b, hb, rfl⟩ := Parser.mem_words_form.1 hw
    obtain ⟨bits, hbits, rfl⟩ := exists_digits hb
    exact ⟨.prim bits, hbits, rfl⟩
  | seq =>
    obtain ⟨b, hb, rfl⟩ := Parser.mem_words_form.1 hw
    obtain ⟨d, hd, rfl⟩ := hdata.le hb
    exact ⟨.seq d, hd, rfl⟩
  | tuple =>
    obtain ⟨b, hb, rfl⟩ := Parser.mem_words_form.1 hw
    obtain ⟨_, helement, _, hmore, rfl⟩ := Language.mem_mul.1 hb
    obtain ⟨_, hcomma, _, hnumeral, rfl⟩ := Language.mem_mul.1 hmore
    obtain ⟨_, rfl, g, hg, rfl⟩ := Language.mem_mul.1 hcomma
    obtain ⟨d, hd, rfl⟩ := hdata.le helement
    obtain ⟨count, hcount, rfl⟩ := exists_digits hnumeral
    exact ⟨.tuple d ⟨g, hg⟩ count, ⟨hd, hcount⟩, rfl⟩
  | struct =>
    obtain ⟨b, hb, rfl⟩ := Parser.mem_words_form.1 hw
    obtain ⟨d, m, hshort, rfl⟩ := exists_row hdata hb
    exact ⟨.struct d m, hshort, rfl⟩
  | variant =>
    obtain ⟨b, hb, rfl⟩ := Parser.mem_words_form.1 hw
    obtain ⟨d, m, hshort, rfl⟩ := exists_row hdata hb
    exact ⟨.variant d m, hshort, rfl⟩

end

/-- What the rule reads has a derivation. -/
theorem data_spells {input : Input} (limit : Nat) {α : Type} (rule : Rule α) :
    (Parser.callWithin input rules limit rule).Spells input derivable fun _ => ⊤ := by
  refine Parser.callWithin_spells (W := fun _ => derivable) (O := fun _ _ => ⊤)
    (fun rule => ⟨?_, fun _ => le_top⟩) limit rule
  cases rule
  rw [rules, anyForm_eq]
  refine Parser.words_choice_le fun p hp => ?_
  obtain ⟨form, -, rfl⟩ := List.mem_map.1 hp
  exact words_formOf_le rfl form

/-! ### Whole texts -/

variable {limit : Nat} {source : String} {maxDepth : Int} {data : Data} {d : Derivation}

theorem rules_guarded {α : Type} (rule : Rule α) :
    (rules rule).steady = true ∧ (rules rule).guarded = true := by
  cases rule
  decide

theorem run_ne_exhausted (maxDepth : Int) (hlimit : source.length < limit) (offset : Nat) :
    Peg.run limit rules (.ref .data) (Input.ofString source maxDepth) ≠
      .error (.exhausted offset) :=
  Peg.run_ne_exhausted rules_guarded rfl (by rwa [Input.size_ofString]) offset

/-- Whatever text is read as a whole has a derivation. -/
theorem ensures_derivable (limit : Nat) (source : String) (maxDepth : Int) :
    (((Parser.ref Rule.data).terminated .endOfInput).evalWithin
      (Input.ofString source maxDepth) rules limit).Ensures {} 0
        ⟨fun _ _ _ => source.toList ∈ derivable, fun _ => True, fun _ => True, True⟩ := by
  rw [Parser.evalWithin_eq]
  simp only [Parser.terminated, Parser.eval_map, Parser.eval_both, Parser.eval_ref,
    Parser.eval_endOfInput, Run.ensures_andThen, Run.ensures_yield]
  refine (data_spells limit Rule.data {} 0 rfl).mono ?_ (fun _ _ => trivial)
    (fun _ _ => trivial) id
  rintro v next s ⟨⟨w, hw, hprefix, rfl⟩, -⟩
  refine (Run.ensures_endOfInput ..).2 ?_
  split
  · next hend =>
    -- a prefix that is as long as the text is the text
    rw [Nat.zero_add, Input.size_ofString, ← String.length_toList] at hend
    have hwhole : w = source.toList := hprefix.eq_of_length hend
    rwa [hwhole] at hw
  · trivial

/-- Reading the whole of a text that has a derivation yields what this denotes. -/
theorem ensures_data (hshort : d.Short) (htext : d.text = source.toList) :
    (((Parser.ref Rule.data).terminated .endOfInput).evalWithin
      (Input.ofString source maxDepth) rules limit).Ensures {} 0
        ⟨fun v _ _ => v = d.data ∧ d.data.nesting ≤ maxDepth.toNat ∧ d.data.nesting < limit,
          fun _ => False, fun _ => ¬ d.data.nesting ≤ maxDepth.toNat,
          ¬ d.data.nesting < limit⟩ := by
  have hrest : (Input.ofString source maxDepth).rest 0 = d.text ++ [] := by
    rw [List.append_nil, htext]
    rfl
  have hroom : room maxDepth 0 = maxDepth.toNat := room_zero maxDepth
  rw [Parser.evalWithin_eq]
  simp only [Parser.terminated, Parser.eval_map, Parser.eval_both, Parser.eval_ref,
    Parser.eval_endOfInput, Run.ensures_andThen, Run.ensures_yield]
  refine (yields_data d hshort limit [] {} 0 hrest).mono ?_ (fun _ h => h) ?_ id
  · rintro v next s ⟨hv, hnext, -, -, hnesting, hfits⟩
    have hend : next = (Input.ofString source maxDepth).text.size := by
      rw [hnext, Nat.zero_add, Input.size_ofString, htext, String.length_toList]
    refine (Run.ensures_endOfInput ..).2 ?_
    rw [if_pos hend]
    exact ⟨hv, hroom ▸ hnesting, hfits⟩
  · intro s hs
    exact hroom ▸ hs

theorem run_of_parseWithin (h : parseWithin limit source maxDepth = .ok data) :
    ∃ s, Peg.run limit rules (.ref .data) (Input.ofString source maxDepth) = .ok (data, s) := by
  rw [parseWithin] at h
  cases hrun : Peg.run limit rules (.ref .data) (Input.ofString source maxDepth) with
  | error e =>
    rw [hrun] at h
    cases h
  | ok result =>
    rw [hrun] at h
    exact ⟨result.2, congrArg Except.ok (Prod.ext (Except.ok.inj h) rfl)⟩

/-- A parse gives what a derivation denotes whose numerals are short enough and that nests
within both bounds. -/
theorem parseWithin_eq_ok_iff : parseWithin limit source maxDepth = .ok data ↔
    ∃ d : Derivation, d.text = source.toList ∧ d.Short ∧ d.data.nesting ≤ maxDepth.toNat ∧
      d.data.nesting < limit ∧ d.data = data := by
  constructor
  · intro h
    obtain ⟨s, hrun⟩ := run_of_parseWithin h
    obtain ⟨_, d, hshort, htext⟩ := run_ok hrun (ensures_derivable limit source maxDepth)
    obtain ⟨_, hdata, hnesting, hfits⟩ := run_ok hrun (ensures_data hshort htext)
    exact ⟨d, htext, hshort, hnesting, hfits, hdata.symm⟩
  · rintro ⟨d, htext, hshort, hnesting, hfits, rfl⟩
    have hends : ∀ offset, Peg.run limit rules (.ref .data) (Input.ofString source maxDepth) ≠
        .error (.exhausted offset) :=
      run_ne_exhausted_of_ensures (ensures_data hshort htext) fun h => h hfits
    obtain ⟨_, _, s, hrun, rfl, -⟩ := exists_run_ok (ensures_data hshort htext) (fun _ h => h)
      (fun _ h => h hnesting) hends
    rw [parseWithin, hrun]
    rfl

/-- The canonical text of a type is read as this type, unless a number has too many digits
or the type nests too deeply. What is read from any text is read from its canonical text,
too. Different types have different canonical texts. -/
theorem canonical_text_read_back (limit : Nat) (maxDepth : Int) :
    (∀ data : Data, (∀ n ∈ data.numbers, n < 10 ^ Text.numeralLimit) →
      (data.nesting : Int) ≤ maxDepth → data.nesting < limit →
        parseWithin limit data.text maxDepth = .ok data) ∧
    (∀ source data, parseWithin limit source maxDepth = .ok data →
      parseWithin limit data.text maxDepth = .ok data) ∧
    Function.Injective text := by
  have hread : ∀ data : Data, (∀ n ∈ data.numbers, n < 10 ^ Text.numeralLimit) →
      data.nesting ≤ maxDepth.toNat → data.nesting < limit →
        parseWithin limit data.text maxDepth = .ok data := by
    intro data hnumbers hnesting hfits
    have hdata := data_derivation data
    exact parseWithin_eq_ok_iff.2 ⟨data.derivation, text_derivation data,
      (short_derivation data).2 hnumbers, by rwa [hdata], by rwa [hdata], hdata⟩
  refine ⟨fun data hnumbers hnesting => hread data hnumbers (by omega), ?_, text_injective⟩
  intro source data h
  obtain ⟨d, -, hshort, hnesting, hfits, rfl⟩ := parseWithin_eq_ok_iff.1 h
  exact hread d.data hshort.numbers_lt hnesting hfits

/-- A text with other gaps and digits than the canonical one. -/
theorem canonical_text_read_back_of_tuple :
    parseWithin 3 "Tuple<Seq<Empty>,007>" 2 = .ok (.tuple (.seq .empty) 7) ∧
      parseWithin 3 "Tuple<Seq<Empty>, 7>" 2 = .ok (.tuple (.seq .empty) 7) := by
  have hread : parseWithin 3 "Tuple<Seq<Empty>,007>" 2 = .ok (.tuple (.seq .empty) 7) := rfl
  have htext : (tuple (.seq .empty) 7).text = "Tuple<Seq<Empty>, 7>" := rfl
  have hback := (canonical_text_read_back 3 2).2.1 _ _ hread
  rw [htext] at hback
  exact ⟨hread, hback⟩

end StreamTypes.Data
