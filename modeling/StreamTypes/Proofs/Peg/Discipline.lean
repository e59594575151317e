import StreamTypes.Proofs.Peg.Adequacy
import Mathlib.Order.Bounds.Basic

/-!
# What a run does to its state

Every expression treats the state in the same orderly way, whether it matches, fails or
exceeds the depth bound. The depth comes back to what it was, nodes are only added, and
what is noted is what the primitives have missed, those included that were recovered
from. An excess of depth is noted by the runs that end with one and by no other, and
nothing catches it.

## Main definitions

- `Orderly` — what a run does to its state, in terms of its journal

## Main statements

- `Note.isGreatest_furthest`, `Note.mem_expected` — what is noted of a journal
- `Parser.arena_of_orElse`, `Parser.arena_of_opt` — an attempt that fails stores nothing
- `Parser.evalWithin_of_tooDeep` — nothing catches an excess of depth
- `state_discipline` — every run that ends is orderly
-/

namespace StreamTypes.Peg

variable {ν α β : Type} {ρ : Type → Type}

/-! ### What is noted of a journal -/

namespace Note

theorem addAll_cons (note : Note) (event : Event) (journal : List Event) :
    note.addAll (event :: journal) = (note.add event).addAll journal :=
  rfl

theorem furthest_add (note : Note) (event : Event) :
    IsGreatest (insert note.furthest {q | ∃ e, event = .missed q e}) (note.add event).furthest := by
  cases event with
  | missed q e =>
    unfold add
    dsimp only
    split
    · next h => exact ⟨.inr ⟨e, rfl⟩, by rintro _ (rfl | ⟨_, ⟨⟩⟩) <;> dsimp only <;> omega⟩
    · split
      · exact ⟨.inl rfl, by rintro _ (rfl | ⟨_, ⟨⟩⟩) <;> dsimp only <;> omega⟩
      · exact ⟨.inl rfl, by rintro _ (rfl | ⟨_, ⟨⟩⟩) <;> omega⟩
  | exceeded q => exact ⟨.inl rfl, by rintro _ (rfl | ⟨_, ⟨⟩⟩); exact Nat.le_refl _⟩

/-- The furthest position is the greatest one of those noted before and those missed. -/
theorem isGreatest_furthest (note : Note) (journal : List Event) :
    IsGreatest (insert note.furthest {q | ∃ e, .missed q e ∈ journal})
      (note.addAll journal).furthest := by
  induction journal generalizing note with
  | nil => simp [addAll]
  | cons event journal ih =>
    obtain ⟨hfirst, hfirst_le⟩ := note.furthest_add event
    obtain ⟨hrest, hrest_le⟩ := ih (note.add event)
    rw [addAll_cons]
    refine ⟨?_, ?_⟩
    · rcases hrest with heq | ⟨e, he⟩
      · rw [heq]
        exact hfirst.imp_right fun ⟨e, he⟩ => ⟨e, he ▸ List.mem_cons_self⟩
      · exact .inr ⟨e, List.mem_cons_of_mem _ he⟩
    · have hadd : (note.add event).furthest ≤ ((note.add event).addAll journal).furthest :=
        hrest_le (.inl rfl)
      rintro q (rfl | ⟨e, he⟩)
      · exact (hfirst_le (.inl rfl)).trans hadd
      · rcases List.mem_cons.1 he with rfl | he
        · exact (hfirst_le (.inr ⟨e, rfl⟩)).trans hadd
        · exact hrest_le (.inr ⟨e, he⟩)

theorem mem_expected_add (note : Note) (event : Event) (e : Expectation) :
    e ∈ (note.add event).expected ↔ event = .missed (note.add event).furthest e ∨
      (note.add event).furthest = note.furthest ∧ e ∈ note.expected := by
  cases event with
  | missed q e' =>
    unfold add
    dsimp only
    split
    · next h =>
      simp only [List.mem_singleton, Event.missed.injEq, true_and]
      exact ⟨fun h' => .inl h'.symm, fun h' => h'.elim Eq.symm fun h' => by omega⟩
    · split
      · next h =>
        simp only [List.mem_insert_iff, Event.missed.injEq, true_and]
        exact or_congr_left ⟨fun h' => ⟨h.symm, h'.symm⟩, fun h' => h'.2.symm⟩
      · next h =>
        simp only [Event.missed.injEq, true_and]
        exact ⟨.inr, fun h' => h'.elim (fun h' => by omega) id⟩
  | exceeded q =>
    exact ⟨fun h => .inr ⟨rfl, h⟩, fun h => h.elim nofun And.right⟩

/-- What is expected at the furthest position is what has been missed there. -/
theorem mem_expected (note : Note) (journal : List Event) (e : Expectation) :
    e ∈ (note.addAll journal).expected ↔
      .missed (note.addAll journal).furthest e ∈ journal ∨
        (note.addAll journal).furthest = note.furthest ∧ e ∈ note.expected := by
  induction journal generalizing note with
  | nil => simp [addAll]
  | cons event journal ih =>
    have hfirst : note.furthest ≤ (note.add event).furthest :=
      (note.furthest_add event).2 (.inl rfl)
    have hlast : (note.add event).furthest ≤ ((note.add event).addAll journal).furthest :=
      ((note.add event).isGreatest_furthest journal).2 (.inl rfl)
    rw [addAll_cons, ih, mem_expected_add, List.mem_cons]
    generalize ((note.add event).addAll journal).furthest = last at hlast
    constructor
    · rintro (hmem | ⟨rfl, hmem | ⟨heq, hmem⟩⟩)
      · exact .inl (.inr hmem)
      · exact .inl (.inl hmem.symm)
      · exact .inr ⟨heq, hmem⟩
    · rintro ((hmem | hmem) | ⟨rfl, hmem⟩)
      -- the furthest position is the one of this event already, and stays where it is
      · have hadd : last ≤ (note.add event).furthest :=
          (note.furthest_add event).2 (.inr ⟨e, hmem.symm⟩)
        obtain rfl := Nat.le_antisymm hadd hlast
        exact .inr ⟨rfl, .inl hmem.symm⟩
      · exact .inl hmem
      · obtain heq := Nat.le_antisymm hfirst hlast
        exact .inr ⟨heq, .inr ⟨heq.symm, hmem⟩⟩

theorem tooDeepAt_isSome (note : Note) (journal : List Event) :
    (note.addAll journal).tooDeepAt.isSome ↔
      note.tooDeepAt.isSome ∨ ∃ q, .exceeded q ∈ journal := by
  induction journal generalizing note with
  | nil => simp [addAll]
  | cons event journal ih =>
    rw [addAll_cons, ih]
    cases event with
    | missed q e =>
      have hadd : (note.add (.missed q e)).tooDeepAt = note.tooDeepAt := by
        unfold add
        dsimp only
        split
        · rfl
        · split <;> rfl
      simp [hadd]
    | exceeded q =>
      have hadd : (note.add (.exceeded q)).tooDeepAt.isSome := by
        rw [add]
        cases note.tooDeepAt <;> rfl
      simp [hadd]

end Note

/-! ### Orderly runs -/

/-- From the first state a run with this journal has led to the outcome and the second
state, and it has treated the state as it should. -/
structure Orderly (input : Input) (s : State ν) (pos : Nat) (journal : List Event)
    (outcome : Outcome α) (s' : State ν) : Prop where
  depth : s'.depth = s.depth
  arena : s.arena.toList <+: s'.arena.toList
  next : ∀ value next, outcome = .accepted value next → pos ≤ next ∧ next ≤ input.text.size
  furthest_le : s'.furthest ≤ input.text.size
  /-- The furthest position is the greatest one at which a primitive did not match. -/
  furthest : IsGreatest (insert s.furthest {q | ∃ e, .missed q e ∈ journal}) s'.furthest
  expected : ∀ e, e ∈ s'.expected ↔
    .missed s'.furthest e ∈ journal ∨ s'.furthest = s.furthest ∧ e ∈ s.expected
  /-- The depth bound is exceeded on the way just if the run ends with that. -/
  exceeded : (∃ q, .exceeded q ∈ journal) ↔ ∃ failedAt, outcome = .tooDeep failedAt
  tooDeepAt : s.tooDeepAt = none →
    (s'.tooDeepAt.isSome ↔ ∃ failedAt, outcome = .tooDeep failedAt)

theorem Result.Shown.stop_tooDeep {result : Result ν α} {s s' : State ν} {outcome : Outcome α}
    (h : result.Shown s (outcome, s')) :
    result.stop = .inr .tooDeep ↔ ∃ failedAt, outcome = .tooDeep failedAt := by
  cases outcome with
  | accepted =>
    obtain ⟨nodes, rfl, -⟩ := h
    simp [Result.stop]
  | backtracked =>
    obtain rfl : result = .halted .failed := h
    simp [Result.stop]
  | tooDeep failedAt =>
    obtain rfl : result = .halted .tooDeep := h
    exact ⟨fun _ => ⟨failedAt, rfl⟩, fun _ => rfl⟩
  | exhausted => exact h.elim

/-- A run that shows a confined reading and notes its events is orderly. -/
theorem State.Leads.orderly {input : Input} {s s' : State ν} {pos : Nat} {journal : List Event}
    {outcome : Outcome α} {result : Result ν α} (h : s.Leads journal s')
    (hshown : result.Shown s (outcome, s'))
    (hconfined : Confined input.text.size pos journal result.stop)
    (hfurthest : s.furthest ≤ input.text.size) (hpos : pos ≤ input.text.size) :
    Orderly input s pos journal outcome s' := by
  have hnote : ∀ {γ : Type} (f : Note → γ), f s'.note = f (s.note.addAll journal) :=
    fun f => congrArg f h.note
  have hgreatest : IsGreatest (insert s.furthest {q | ∃ e, .missed q e ∈ journal})
      s'.furthest := by
    have hall := s.note.isGreatest_furthest journal
    rwa [← hnote Note.furthest] at hall
  have hexceeded := hconfined.tooDeep.trans hshown.stop_tooDeep
  refine ⟨h.depth, h.arena, ?_, ?_, hgreatest, ?_, hexceeded, ?_⟩
  · rintro value next rfl
    obtain ⟨nodes, rfl, -⟩ := hshown
    have hnext := hconfined.next next rfl
    omega
  · rcases hgreatest.1 with heq | ⟨e, he⟩
    · rwa [heq]
    · exact (hconfined.events _ he).trans (Nat.max_le.2 ⟨hpos, Nat.le_refl _⟩)
  · intro e
    have hall := s.note.mem_expected journal e
    rwa [← hnote Note.furthest, ← hnote Note.expected] at hall
  · intro hnone
    have hall := s.note.tooDeepAt_isSome journal
    rw [← hnote Note.tooDeepAt] at hall
    refine (hall.trans ?_).trans hexceeded
    refine or_iff_right fun hsome => ?_
    rw [State.note, hnone] at hsome
    cases hsome

section
variable {input : Input} {rules : Rules ν ρ} {limit : Nat} {p q : Parser ν ρ α} {s s' : State ν}
  {pos failedAt : Nat}

/-! ### What is left of an attempt -/

theorem Parser.eval_leads {outcome : Outcome α}
    (hrun : p.eval input (callWithin input rules limit) s pos = (outcome, s'))
    (hends : outcome ≠ .exhausted) : ∃ journal, s.Leads journal s' := by
  rw [← evalWithin_eq] at hrun
  obtain ⟨j, _, -, -, hleads⟩ := (evalWithin_derives rules limit p s pos).shown fun h =>
    (hends ((congrArg Prod.fst hrun).symm.trans h)).elim
  rw [hrun] at hleads
  exact ⟨j, hleads⟩

theorem Parser.arena_of_orElse
    (hrun : (p.orElse q).evalWithin input rules limit s pos = (.backtracked failedAt, s')) :
    s'.arena = s.arena := by
  rw [evalWithin_eq] at hrun
  simp only [eval, Run.recover] at hrun
  split at hrun
  · next hfirst =>
    obtain ⟨_, hs₁⟩ := eval_leads hfirst (by simp)
    split at hrun
    · next hsecond =>
      obtain ⟨_, hs₂⟩ := eval_leads hsecond (by simp)
      cases hrun
      exact hs₂.arena_truncate.trans hs₁.arena_truncate
    all_goals cases hrun
  all_goals cases hrun

theorem Parser.arena_of_opt {next : Nat}
    (hrun : p.opt.evalWithin input rules limit s pos = (.accepted none next, s')) :
    s'.arena = s.arena ∧ next = pos := by
  rw [evalWithin_eq] at hrun
  simp only [eval, Run.optional, Run.recover, Run.andThen] at hrun
  cases hbody : p.eval input (callWithin input rules limit) s pos with
  | mk outcome s₁ =>
    rw [hbody] at hrun
    cases outcome with
    | backtracked =>
      obtain ⟨_, hs₁⟩ := eval_leads hbody (by simp)
      cases hrun
      exact ⟨hs₁.arena_truncate, rfl⟩
    | accepted | tooDeep | exhausted => cases hrun

/-- Nothing that stands around an excess of depth catches it. -/
theorem Parser.evalWithin_of_tooDeep
    (hrun : p.evalWithin input rules limit s pos = (.tooDeep failedAt, s')) :
    (∀ q, (p.orElse q).evalWithin input rules limit s pos = (.tooDeep failedAt, s')) ∧
    p.opt.evalWithin input rules limit s pos = (.tooDeep failedAt, s') ∧
    ∀ (β : Type) (separator : Parser ν ρ β),
      (p.sepBy1 separator).evalWithin input rules limit s pos = (.tooDeep failedAt, s') := by
  simp only [evalWithin_eq] at hrun ⊢
  refine ⟨fun q => ?_, ?_, fun β separator => ?_⟩
  · simp only [eval, Run.recover, hrun]
  · simp only [eval, Run.optional, Run.recover, Run.andThen, hrun]
  · simp only [eval, Run.andThen, hrun]

/-- Every run that ends is orderly, whatever reading it belongs to. A choice that does not
match and an option that is left out store nothing, and an excess of depth ends whatever
stands around it. -/
theorem state_discipline {outcome : Outcome α} (hfurthest : s.furthest ≤ input.text.size)
    (hpos : pos ≤ input.text.size)
    (hrun : p.evalWithin input rules limit s pos = (outcome, s'))
    (hends : outcome ≠ .exhausted) :
    (∃ journal result, Derives input rules p (s.place pos) journal result) ∧
    (∀ journal result, Derives input rules p (s.place pos) journal result →
      result.Shown s (outcome, s') ∧ Orderly input s pos journal outcome s') ∧
    (∀ ps failedAt t, (Parser.choice ps : Parser ν ρ α).evalWithin input rules limit s pos =
      (.backtracked failedAt, t) → t.arena = s.arena) ∧
    (∀ next t, p.opt.evalWithin input rules limit s pos = (.accepted none next, t) →
      t.arena = s.arena ∧ next = pos) ∧
    (∀ failedAt, outcome = .tooDeep failedAt →
      (∀ q, (p.orElse q).evalWithin input rules limit s pos = (.tooDeep failedAt, s')) ∧
      p.opt.evalWithin input rules limit s pos = (.tooDeep failedAt, s') ∧
      ∀ (β : Type) (separator : Parser ν ρ β),
        (p.sepBy1 separator).evalWithin input rules limit s pos = (.tooDeep failedAt, s')) := by
  have hends' : (p.evalWithin input rules limit s pos).1 ≠ .exhausted := by rwa [hrun]
  refine ⟨?_, ?_, ?_, ?_, ?_⟩
  · obtain ⟨j, result, hj, -⟩ := (Parser.evalWithin_derives rules limit p s pos).shown
      fun h => (hends' h).elim
    exact ⟨j, result, hj⟩
  · intro j result hj
    obtain ⟨hshown, hleads⟩ := hj.shown hends'
    rw [hrun] at hshown hleads
    exact ⟨hshown, hleads.orderly hshown hj.confined hfurthest hpos⟩
  · intro ps failedAt t hchoice
    cases ps with
    | nil =>
      rw [Parser.evalWithin_eq] at hchoice
      cases hchoice
      rfl
    | cons q qs => exact Parser.arena_of_orElse hchoice
  · exact fun next t hopt => Parser.arena_of_opt hopt
  · rintro failedAt rfl
    exact Parser.evalWithin_of_tooDeep hrun

end

/-- The option is recovered from, and is forgotten when the second letter is not there. -/
theorem state_discipline_of_recovered_option :
    let rules : Rules Unit fun _ => Empty := nofun
    let p : Parser Unit (fun _ => Empty) String :=
      (Parser.opt (.literal "x")).preceded ((Parser.literal "a").terminated (.literal "c"))
    let s : State Unit := {}
    let s' : State Unit := { furthest := 1, expected := [.literal "c"] }
    p.evalWithin (.ofString "ab" 0) rules 0 s 0 = (.backtracked 1, s') ∧
      ∃ journal result, Derives (.ofString "ab" 0) rules p (s.place 0) journal result ∧
        Orderly (.ofString "ab" 0) s 0 journal (.backtracked 1 : Outcome String) s' := by
  intro rules p s s'
  have hrun : p.evalWithin (.ofString "ab" 0) rules 0 s 0 = (.backtracked 1, s') := by rfl
  obtain ⟨⟨j, result, hj⟩, horderly, -⟩ :=
    state_discipline (Nat.zero_le _) (Nat.zero_le _) hrun nofun
  exact ⟨hrun, j, result, hj, (horderly j result hj).2⟩

end StreamTypes.Peg
