import StreamTypes.Proofs.Data.Acceptance
import StreamTypes.Proofs.River.Acceptance

/-!
# Every parse comes to an end

Whatever the text and the depth bound, reading a River expression or a data type comes to an end: a
form is called further on in the text than the form around it, and a list reads a comma in every
round. The latter is so for any items that end and do not move back, also for such that read
nothing. Each round uses up one of the commas that are left, so their number bounds that of the
items.

## Main definitions

- `Peg.Ending.notBefore` — a run ends, and does not move back
- `Peg.Input.commas` — how many commas are left

## Main statements

- `Peg.Run.repeated_commas` — the rounds of a list use up commas
- `Peg.Parser.commaList_ends` — a list of items that end does end
- `parsing_terminates` — the same for all lists, and for both grammars
-/

namespace StreamTypes

namespace Peg

variable {ν α : Type} {ρ : Type → Type} {input : Input} {call : ∀ {α : Type}, ρ α → Run ν α}

/-- The run comes to an end, and a match ends at `least` or further on. -/
def Ending.notBefore (ν α : Type) (least : Nat) : Ending ν α :=
  ⟨fun _ next _ => least ≤ next, fun _ => True, fun _ => True, False⟩

/-- How many commas are left in the text at a position. -/
def Input.commas (input : Input) (pos : Nat) : Nat :=
  (input.rest pos).count ','

theorem Input.commas_le (input : Input) {pos next : Nat} (h : pos ≤ next) :
    input.commas next ≤ input.commas pos :=
  (List.drop_sublist_drop_left _ h).count_le ','

theorem Input.commas_le_size (input : Input) (pos : Nat) :
    input.commas pos ≤ input.text.size - pos :=
  List.count_le_length.trans_eq (input.length_rest pos)

theorem Input.commas_lt {pos next : Nat} {r : List Char} (hrest : input.rest pos = ',' :: r)
    (h : pos < next) : input.commas next < input.commas pos := by
  have hbehind : input.rest (pos + 1) = r := rest_add (w := [',']) hrest
  have hcommas : input.commas pos = input.commas (pos + 1) + 1 := by
    rw [commas, commas, hrest, hbehind, List.count_cons_self]
  rw [hcommas]
  exact Nat.lt_succ_of_le (input.commas_le h)

namespace Run

/-- Behind a comma there are fewer commas than in front of it. -/
theorem ensures_comma (s : State ν) (pos : Nat) :
    (Parser.comma.eval input call : Run ν String).Ensures s pos
      ⟨fun _ next _ => pos < next ∧ input.commas next < input.commas pos, fun _ => True,
        fun _ => False, False⟩ := by
  simp only [Parser.comma, Parser.thenBlanks, Parser.terminated, Parser.eval_map, Parser.eval_both,
    Parser.eval_literal, Parser.eval_blanks, ensures_andThen, ensures_yield, ensures_literal,
    ensures_blanks]
  split
  · next h =>
    obtain ⟨r, hr⟩ := h.2
    have hlt : pos < pos + ",".toList.length +
        ((input.rest (pos + ",".toList.length)).takeWhile isGap).length :=
      Nat.lt_add_right _ (Nat.lt_succ_self pos)
    exact ⟨hlt, Input.commas_lt hr.symm hlt⟩
  · trivial

variable {item : Run ν α} {start : Nat}

/-- A round of a list reads a comma at least. -/
theorem ensures_round (hitem : ∀ s pos, start ≤ pos → item.Ensures s pos (.notBefore ν α pos))
    (s : State ν) {pos : Nat} (hstart : start ≤ pos) :
    ((Parser.comma.eval input call).andThen fun _ => item).Ensures s pos
      ⟨fun _ next _ => pos < next ∧ input.commas next < input.commas pos, fun _ => True,
        fun _ => True, False⟩ := by
  rw [ensures_andThen]
  refine (ensures_comma s pos).mono ?_ (fun _ _ => trivial) (fun _ _ => trivial) id
  rintro _ mid s' ⟨hlt, hcommas⟩
  refine (hitem s' mid (by omega)).mono ?_ (fun _ _ => trivial) (fun _ _ => trivial) id
  intro _ next _ (hle : mid ≤ next)
  have := input.commas_le hle
  exact ⟨by omega, by omega⟩

/-- The rounds of a list come to an end, and there are not more of them than commas. -/
theorem repeated_commas (hitem : ∀ s pos, start ≤ pos → item.Ensures s pos (.notBefore ν α pos))
    (rounds : Nat) (values : List α) (s : State ν) (pos : Nat) (hstart : start ≤ pos)
    (hrounds : input.commas pos < rounds) :
    Ensures (repeated ((Parser.comma.eval input call).andThen fun _ => item) rounds values) s pos
      ⟨fun vs next _ => pos ≤ next ∧ vs.length ≤ values.length + input.commas pos, fun _ => True,
        fun _ => True, False⟩ := by
  induction rounds generalizing values s pos with
  | zero => omega
  | succ rounds ih =>
    rw [ensures_repeated_succ]
    refine (ensures_round hitem s hstart).mono ?_ ?_ (fun _ _ => trivial) id
    · rintro v next s' ⟨hlt, hcommas⟩
      refine (ih (v :: values) s' next (by omega) (by omega)).mono ?_ (fun _ _ => trivial)
        (fun _ _ => trivial) id
      rintro vs last _ ⟨hle, hlength⟩
      rw [List.length_cons] at hlength
      exact ⟨by omega, by omega⟩
    · intro _ _
      exact ⟨Nat.le_refl pos, by simp⟩

end Run

/-- A list of items that end does end, and it has at most one item more than there are commas. -/
theorem Parser.commaList_ends {item : Parser ν ρ α} {s : State ν} {pos : Nat}
    (hitem : ∀ t q, pos ≤ q → (item.eval input call).Ensures t q (.notBefore ν α q)) :
    ((commaList item).eval input call).Ensures s pos
      ⟨fun v next _ => pos ≤ next ∧ (v.1 :: v.2).length ≤ input.commas pos + 1, fun _ => True,
        fun _ => True, False⟩ := by
  rw [commaList, ensures_sepBy1]
  refine (hitem s pos (Nat.le_refl pos)).mono ?_ (fun _ _ => trivial) (fun _ _ => trivial) id
  intro v mid s' (hmid : pos ≤ mid)
  have hrounds := input.commas_le_size mid
  refine (Run.repeated_commas hitem _ [] s' mid hmid (by omega)).mono ?_ (fun _ _ => trivial)
    (fun _ _ => trivial) id
  rintro vs next _ ⟨hle, hlength⟩
  have hcommas := input.commas_le hmid
  simp only [List.length_nil, List.length_cons] at hlength ⊢
  exact ⟨by omega, by omega⟩

end Peg

open Peg

/-- Every parse comes to an end, whatever the text and the depth bound. From every position a rule
of either grammar has a result, and it calls itself further on in the text only; every round of a
list moves on. More generally a list ends if its items do and none of them moves back, and it has at
most one item more than there are commas from its start on. Such an item may be the run of any rule
whatever, also one that reads nothing. -/
theorem parsing_terminates :
    (∀ (input : Input) (s : State (River.Node Nat)) (pos : Nat),
      Terminates input River.rules .river s pos) ∧
    (∀ (input : Input) (s : State Empty) (pos : Nat), Terminates input Data.rules .data s pos) ∧
    (∀ {ν α : Type} {ρ : Type → Type} (input : Input) (rules : Rules ν ρ) (limit : Nat)
      (item : Parser ν ρ α) (s s' : State ν) (pos next : Nat) (value : α),
      (Parser.comma.preceded item).evalWithin input rules limit s pos =
        (.accepted value next, s') → pos < next) ∧
    (∀ {ν α : Type} {ρ : Type → Type} (input : Input) (call : ∀ {β : Type}, ρ β → Run ν β)
      (item : Parser ν ρ α) (s : State ν) (pos : Nat),
      (∀ t q, pos ≤ q → (item.eval input call).Ensures t q (.notBefore ν α q)) →
        (∀ t q, pos ≤ q →
          ((Parser.comma.preceded item).eval input call).Ensures t q (.notBefore ν α (q + 1))) ∧
        ((Parser.commaList item).eval input call).Ensures s pos
          ⟨fun v next _ => pos ≤ next ∧ (v.1 :: v.2).length ≤ input.commas pos + 1, fun _ => True,
            fun _ => True, False⟩) := by
  refine ⟨fun input s pos => ?_, fun input s pos => ?_, ?_, ?_⟩
  · exact terminates input River.rules_guarded .river s pos
  · exact terminates input Data.rules_guarded .data s pos
  · intro ν α ρ input rules limit item s s' pos next value hrun
    rw [Parser.evalWithin_eq] at hrun
    exact (Parser.eval_next hrun).2.2 rfl
  · intro ν α ρ input call item s pos hitem
    refine ⟨fun t q hq => ?_, Parser.commaList_ends hitem⟩
    rw [Parser.eval_preceded]
    refine (Run.ensures_round hitem t hq).mono ?_ (fun _ _ => trivial) (fun _ _ => trivial) id
    exact fun _ next _ h => h.1

/-- The field of a structure is read behind the bracket. A round of a list whose items may be left
out reads the comma, and the list has one item more, left out or not, than there are commas. -/
theorem parsing_terminates_of_empty_items :
    (Parser.Calls (.ofString "Struct<Empty>" 1)
      (Parser.callWithin (.ofString "Struct<Empty>" 1) Data.rules 0) .data { depth := 1 } 7
      (Data.rules .data) {} 0 ∧ 0 < 7 ∧ 7 ≤ (Input.ofString "Struct<Empty>" 1).text.size) ∧
    ((Parser.comma.preceded (.opt (.literal "x"))).evalWithin (.ofString ",x," 0)
      (nofun : Rules Unit fun _ => Empty) 0 {} 0 = (.accepted (some "x") 2, {}) ∧ 0 < 2) ∧
    ((Parser.commaList (.opt (.literal "x"))).eval (.ofString ",x," 0)
      (nofun : ∀ {α : Type}, Empty → Run Unit α) {} 0 =
        (.accepted (none, [some "x", none]) 3,
          { furthest := 3, expected := [.literal ",", .literal "x"] }) ∧
      [none, some "x", none].length ≤ (Input.ofString ",x," 0).commas 0 + 1 ∧
      (Input.ofString ",x," 0).commas 0 = 2) := by
  obtain ⟨-, hdata, hrounds, hlists⟩ := parsing_terminates
  have hcalls : Parser.Calls (.ofString "Struct<Empty>" 1)
      (Parser.callWithin (.ofString "Struct<Empty>" 1) Data.rules 0) .data { depth := 1 } 7
      (Data.rules .data) {} 0 := by
    have hkeyword : Run.literal (.ofString "Struct<Empty>" 1) "Struct" ({} : State Empty) 0 =
        (.accepted "Struct" 6, {}) := by rfl
    have hbracket : Run.literal (.ofString "Struct<Empty>" 1) "<" ({} : State Empty) 6 =
        (.accepted "<" 7, {}) := by rfl
    refine .orElseFirst (.map (.map (.bothSecond hkeyword (.map (.bothSecond hbracket ?_)))))
    exact .bothFirst (.nested (by decide) (.sepBy1First .ref))
  have hround : (Parser.comma.preceded (.opt (.literal "x"))).evalWithin (.ofString ",x," 0)
      (nofun : Rules Unit fun _ => Empty) 0 {} 0 = (.accepted (some "x") 2, {}) := by rfl
  have hitem : ∀ t q, 0 ≤ q → ((Parser.literal "x").opt.eval (.ofString ",x," 0)
      (nofun : ∀ {α : Type}, Empty → Run Unit α)).Ensures t q (.notBefore Unit _ q) := by
    intro t q _
    rw [Parser.eval_opt, Run.ensures_optional, Parser.eval_literal, Run.ensures_literal]
    split
    · exact Nat.le_add_right q _
    · exact Nat.le_refl q
  have hrun : (Parser.commaList (.opt (.literal "x"))).eval (.ofString ",x," 0)
      (nofun : ∀ {α : Type}, Empty → Run Unit α) {} 0 =
        (.accepted (none, [some "x", none]) 3,
          { furthest := 3, expected := [.literal ",", .literal "x"] }) := by rfl
  have hlist := (hlists _ _ _ {} 0 hitem).2.of_accepted hrun
  exact ⟨⟨hcalls, (hdata _ {} 0).calls 0 .data _ 7 hcalls⟩,
    ⟨hround, hrounds _ _ 0 _ {} _ 0 2 _ hround⟩, hrun, hlist.2, by decide⟩

end StreamTypes
