import StreamTypes.Proofs.Peg.Comparison
import StreamTypes.Proofs.Peg.Refinement
import Mathlib.Order.Filter.AtTopBot.Basic

/-!
# Every reading is a run

If an expression has a reading at a place, then every run from there ends like it, as
long as enough references may be nested. So runs and readings are two ways to say the
same, and since a place holds neither the stored nodes themselves nor what has been noted
so far, these have no part in what a run does.

## Main definitions

- `Run.Reaches` — from a place a run ends like a reading
- `Means` — the endings of the readings of an expression
- `Result.Shown` — what is seen of a run is the ending

## Main statements

- `Derives.reaches` — every reading is a run, if enough references may be nested
- `backtracking_leaves_no_trace` — runs show what expressions mean, and nothing else
-/

namespace StreamTypes.Peg

variable {ν α β : Type} {ρ : Type → Type}

open Filter

/-- The run ends like the given reading. -/
def Ending.exactly (journal : List Event) (result : Result ν α) (s : State ν) : Ending ν α :=
  .derived (fun j r => j = journal ∧ r = result) False s

/-- From a place the run ends like the given reading. -/
def Run.Reaches (run : Run ν α) (place : Place) (journal : List Event) (result : Result ν α) :
    Prop :=
  ∀ s pos, s.place pos = place → run.Ensures s pos (.exactly journal result s)

/-- A run that ends with a match ends in a state with its nodes. -/
theorem Run.Ensures.exactly_matched {run : Run ν α} {s : State ν} {pos next : Nat}
    {journal : List Event} {nodes : List ν} {value : α}
    (h : run.Ensures s pos (.exactly journal (.matched value next nodes) s)) :
    ∃ s', run s pos = (.accepted value next, s') ∧ s.Leads journal s' ∧
      s'.arena.toList = s.arena.toList ++ nodes := by
  unfold Run.Ensures at h
  split at h
  · next hrun =>
    obtain ⟨_, _, ⟨rfl, ⟨⟩⟩, hs'⟩ := h
    exact ⟨_, hrun, hs'⟩
  · obtain ⟨_, ⟨_, ⟨⟩⟩, _⟩ := h
  · obtain ⟨_, ⟨_, ⟨⟩⟩, _⟩ := h
  · exact h.elim

namespace Run.Reaches

variable {l : Place} {mid : Nat} {journal journal' : List Event} {nodes : List ν} {a : α}

theorem yield (value : α) (l : Place) :
    (Run.yield value : Run ν α).Reaches l [] (.matched value l.pos []) := by
  rintro s pos rfl
  exact .derived_yield ⟨rfl, rfl⟩

theorem of_accepted {run : Run ν α} {value : α} {next : Nat}
    (h : ∀ s, run s l.pos = (.accepted value next, s)) :
    run.Reaches l [] (.matched value next []) := by
  rintro s pos rfl
  have hrun : run s pos = (.accepted value next, s) := h s
  rw [Run.Ensures, hrun]
  exact ⟨[], [], ⟨rfl, rfl⟩, .refl s, (List.append_nil _).symm⟩

theorem of_missing {run : Run ν α} {e : Expectation}
    (h : ∀ s, run s l.pos = Run.missing e s l.pos) :
    run.Reaches l [.missed l.pos e] (.halted .failed) := by
  rintro s pos rfl
  have hrun : run s pos = Run.missing e s pos := h s
  rw [Run.Ensures, hrun]
  exact ⟨_, ⟨rfl, rfl⟩, .record s pos e⟩

theorem andThen_halted {first : Run ν α} {next : α → Run ν β} {halt : Stop}
    (h : first.Reaches l journal (.halted halt)) :
    (first.andThen next).Reaches l journal (.halted halt) := by
  intro s pos hs
  refine (h s pos hs).derived_andThen ?_ ?_
  · rintro j _ ⟨rfl, ⟨⟩⟩
    exact ⟨rfl, rfl⟩
  · rintro j a mid nodes s' ⟨-, ⟨⟩⟩

theorem andThen {first : Run ν α} {next : α → Run ν β} {result : Result ν β}
    (hfirst : first.Reaches l journal (.matched a mid nodes))
    (hnext : (next a).Reaches (l.behind mid nodes) journal' result) :
    (first.andThen next).Reaches l (journal ++ journal') (result.after nodes) := by
  rintro s pos rfl
  refine (hfirst s pos rfl).derived_andThen ?_ ?_
  · rintro j halt ⟨-, ⟨⟩⟩
  · rintro j _ _ _ s' ⟨rfl, ⟨⟩⟩ hplace
    refine (hnext s' mid hplace).derived_mono ?_
    rintro j' r ⟨rfl, rfl⟩
    exact ⟨rfl, rfl⟩

theorem map {run : Run ν α} {result : Result ν α} (f : α → β)
    (h : run.Reaches l journal result) :
    (run.andThen fun v => Run.yield (f v)).Reaches l journal (result.map f) := by
  intro s pos hs
  refine (h s pos hs).derived_map ?_
  rintro j r ⟨rfl, rfl⟩
  exact ⟨rfl, rfl⟩

theorem recover_of_ne {first second : Run ν α} {result : Result ν α}
    (h : first.Reaches l journal result) (hne : result ≠ .halted .failed) :
    (first.recover second).Reaches l journal result := by
  intro s pos hs
  refine (h s pos hs).derived_recover (fun j r hj _ => hj) ?_
  rintro j s' ⟨-, rfl⟩
  exact (hne rfl).elim

theorem recover {first second : Run ν α} {result : Result ν α}
    (hfirst : first.Reaches l journal (.halted .failed))
    (hsecond : second.Reaches l journal' result) :
    (first.recover second).Reaches l (journal ++ journal') result := by
  rintro s pos rfl
  refine (hfirst s pos rfl).derived_recover ?_ ?_
  · rintro j r ⟨-, rfl⟩ hne
    exact (hne rfl).elim
  · rintro j s' ⟨rfl, -⟩ hplace
    refine (hsecond s' pos hplace).derived_mono ?_
    rintro j' r ⟨rfl, rfl⟩
    exact ⟨rfl, rfl⟩

theorem recover_giveUp {run : Run ν α} {result : Result ν α} (h : run.Reaches l journal result) :
    (run.recover Run.giveUp).Reaches l journal result := by
  cases result with
  | matched => exact h.recover_of_ne nofun
  | halted halt =>
    cases halt with
    | tooDeep => exact h.recover_of_ne nofun
    | failed =>
      have hgiveUp : (Run.giveUp : Run ν α).Reaches l [] (.halted .failed) :=
        fun s pos _ => ⟨[], ⟨rfl, rfl⟩, .refl s⟩
      have hboth := h.recover hgiveUp
      rwa [List.append_nil] at hboth

theorem optional_none {body : Run ν α} (h : body.Reaches l journal (.halted .failed)) :
    (Run.optional body).Reaches l journal (.matched none l.pos []) := by
  have hboth := (h.map some).recover (Run.Reaches.yield none l)
  rwa [List.append_nil] at hboth

theorem both {input : Input} {call : ∀ {α : Type}, ρ α → Run ν α} {p : Parser ν ρ α}
    {q : Parser ν ρ β} {result : Result ν β}
    (hp : (p.eval input call).Reaches l journal (.matched a mid nodes))
    (hq : (q.eval input call).Reaches (l.behind mid nodes) journal' result) :
    ((p.both q).eval input call).Reaches l (journal ++ journal')
      ((result.map (Prod.mk a)).after nodes) := by
  rw [Parser.eval_both]
  refine hp.andThen ?_
  exact hq.map (Prod.mk a)

theorem tooDeep {body : Run ν α} {maxDepth : Int} (hle : maxDepth ≤ l.depth) :
    (Run.deeper maxDepth body).Reaches l [.exceeded l.pos] (.halted .tooDeep) := by
  rintro s pos rfl
  refine Run.Ensures.derived_deeper (fun _ => ⟨rfl, rfl⟩) fun hlt => ?_
  exact (Int.not_le.2 hlt hle).elim

theorem deeper {body : Run ν α} {maxDepth : Int} {result : Result ν α}
    (hlt : l.depth < maxDepth) (h : body.Reaches l.deeper journal result) :
    (Run.deeper maxDepth body).Reaches l journal result := by
  rintro s pos rfl
  refine Run.Ensures.derived_deeper (fun hle => ?_) fun _ => h s.enter pos rfl
  exact (Int.not_le.2 hlt hle).elim

theorem alloc {input : Input} {call : ∀ {α : Type}, ρ α → Run ν α} {p : Parser ν ρ α}
    {next : Nat} (build : α → ν)
    (h : (p.eval input call).Reaches l journal (.matched a next nodes)) :
    ((p.alloc build).eval input call).Reaches l journal
      (.matched (l.stored + nodes.length) next (nodes ++ [build a])) := by
  rintro s pos rfl
  obtain ⟨s', hrun, hs', harena⟩ := (h s pos rfl).exactly_matched
  have hindex : s'.arena.size = s.arena.size + nodes.length :=
    congrArg Place.stored (hs'.place_behind harena pos next)
  rw [Parser.ensures_alloc, Run.Ensures, hrun]
  refine ⟨journal, nodes ++ [build a], ⟨rfl, ?_⟩, hs'.push _, ?_⟩
  · rw [hindex]
    rfl
  · rw [State.push, Array.toList_push, harena, List.append_assoc]

end Run.Reaches

/-- From a place the rounds of a list end like the given reading. In particular the first
one does not succeed without moving on. -/
def Run.RepeatsTo (step : Run ν α) (size : Nat) (place : Place) (journal : List Event)
    (result : Result ν (List α)) : Prop :=
  ∀ s pos, s.place pos = place →
    (∀ rounds values, size - pos < rounds →
      Run.Ensures (Run.repeated step rounds values) s pos
        (.exactly journal (result.map (values.reverse ++ ·)) s)) ∧
    step.Ensures s pos ⟨fun _ next _ => next ≠ pos, fun _ => True, fun _ => True, True⟩

namespace Run.RepeatsTo

variable {step : Run ν α} {size : Nat} {l : Place} {mid : Nat} {journal journal' : List Event}
  {nodes : List ν} {a : α}

theorem halted {halt : Stop} {result : Result ν (List α)}
    (h : step.Reaches l journal (.halted halt))
    (hdone : halt = .failed → result = .matched [] l.pos [])
    (hdeep : halt = .tooDeep → result = .halted .tooDeep) :
    step.RepeatsTo size l journal result := by
  rintro s pos rfl
  refine ⟨fun rounds values hrounds => ?_, ?_⟩
  · cases rounds with
    | zero => omega
    | succ rounds =>
      refine (h s pos rfl).derived_repeated ?_ ?_ ?_
      · rintro j ⟨rfl, ⟨⟩⟩
        rw [hdone rfl]
        exact ⟨rfl, congrArg (Result.matched · pos []) (List.append_nil _).symm⟩
      · rintro j ⟨rfl, ⟨⟩⟩
        rw [hdeep rfl]
        exact ⟨rfl, rfl⟩
      · rintro j a mid nodes s' ⟨-, ⟨⟩⟩
  · refine (h s pos rfl).mono ?_ (fun _ _ => trivial) (fun _ _ => trivial) fun _ => trivial
    rintro v next s' ⟨_, _, ⟨-, ⟨⟩⟩, _⟩

/-- A round that matches has moved on: otherwise the next one would match there as well,
and so would all the others. -/
theorem more {result : Result ν (List α)} (huniform : Run.Uniform False step)
    (hmid : l.pos ≤ mid ∧ mid ≤ max l.pos size) (h : step.Reaches l journal (.matched a mid nodes))
    (h' : step.RepeatsTo size (l.behind mid nodes) journal' result) :
    step.RepeatsTo size l (journal ++ journal') ((result.map (a :: ·)).after nodes) := by
  rintro s pos rfl
  obtain ⟨s', hrun, hs', harena⟩ := (h s pos rfl).exactly_matched
  have hmoves := (h' s' mid (hs'.place_behind harena pos mid)).2
  -- without a move the next round starts where this one did, at the same depth; the two end
  -- alike, but the next one moves on
  have hne : mid ≠ pos := by
    rintro rfl
    have halike := huniform s s' mid ⟨hs'.depth.symm, False.elim⟩
    rw [hrun] at halike
    rw [Run.Ensures] at hmoves
    generalize step s' mid = round at halike hmoves
    cases halike
    exact hmoves rfl
  have hlt : pos < mid := Nat.lt_of_le_of_ne hmid.1 hne.symm
  have hsize : mid ≤ max pos size := hmid.2
  refine ⟨fun rounds values hrounds => ?_, ?_⟩
  · cases rounds with
    | zero => omega
    | succ rounds =>
      refine (h s pos rfl).derived_repeated ?_ ?_ ?_
      · rintro j ⟨-, ⟨⟩⟩
      · rintro j ⟨-, ⟨⟩⟩
      · rintro j _ _ _ s₁ ⟨rfl, ⟨⟩⟩ hplace
        -- the rounds that are left suffice since the position has moved on
        refine ((h' s₁ mid hplace).1 rounds (a :: values) (by omega)).derived_mono ?_
        rintro j' r ⟨rfl, rfl⟩
        refine ⟨rfl, ?_⟩
        cases result <;> simp [Result.map, Result.after]
  · rw [Run.Ensures, hrun]
    exact hne

end Run.RepeatsTo

theorem Run.Reaches.sepBy1 {input : Input} {call : ∀ {α : Type}, ρ α → Run ν α}
    {item : Parser ν ρ α} {separator : Parser ν ρ β} {l : Place} {mid : Nat}
    {journal journal' : List Event} {nodes : List ν} {a : α} {result : Result ν (List α)}
    (hitem : (item.eval input call).Reaches l journal (.matched a mid nodes))
    (hrounds : ((separator.preceded item).eval input call).RepeatsTo input.text.size
      (l.behind mid nodes) journal' result) :
    ((item.sepBy1 separator).eval input call).Reaches l (journal ++ journal')
      ((result.map (Prod.mk a)).after nodes) := by
  rw [Parser.eval_preceded] at hrounds
  refine hitem.andThen fun s pos hs => ?_
  refine Run.Ensures.derived_map ((hrounds s pos hs).1 _ [] (Nat.lt_succ_self _)) ?_
  rintro j r ⟨rfl, rfl⟩
  refine ⟨rfl, ?_⟩
  cases result <;> rfl

section
variable {input : Input} {rules : Rules ν ρ}

/-- A reading of a rule is a run that needs one reference more. -/
theorem Parser.eventually_callWithin {l : Place} {j : List Event} {result : Result ν α}
    {rule : ρ α} (h : ∀ᶠ limit in atTop,
      ((rules rule).eval input (Parser.callWithin input rules limit)).Reaches l j result) :
    ∀ᶠ limit in atTop, (Parser.callWithin input rules limit rule).Reaches l j result := by
  obtain ⟨least, hleast⟩ := eventually_atTop.1 h
  refine eventually_atTop.2 ⟨least + 1, fun limit hle => ?_⟩
  cases limit with
  | zero => omega
  | succ limit =>
    rw [Parser.callWithin_succ]
    exact hleast limit (by omega)

theorem Parser.eval_uniform_shape (limit : Nat) (p : Parser ν ρ α) :
    Run.Uniform False (p.eval input (Parser.callWithin input rules limit)) := by
  rw [← Parser.evalWithin_eq]
  exact Parser.evalWithin_uniform input rules False limit p

mutual

theorem Derives.reaches {α : Type} {p : Parser ν ρ α} {l : Place} {j : List Event}
    {result : Result ν α} : Derives input rules p l j result →
      ∀ᶠ limit in atTop, (p.eval input (Parser.callWithin input rules limit)).Reaches l j result
  | .pure => .of_forall fun _ => .yield _ _
  | .fail => .of_forall fun _ s _ _ => ⟨[], ⟨rfl, rfl⟩, .refl s⟩
  | .literal h => .of_forall fun _ => .of_accepted fun s => by
    rw [Parser.eval_literal, Run.literal, if_pos (holdsAt_iff.2 h), String.length_toList]
  | .noLiteral h => .of_forall fun _ => .of_missing fun s => by
    rw [Parser.eval_literal, Run.literal, if_neg (mt holdsAt_iff.1 h)]
  | .unsigned hdigits hne hlength => .of_forall fun _ => .of_accepted fun s => by
    simp only [Parser.eval_unsigned, Run.unsigned, spanAt_eq, List.isEmpty_iff, hdigits]
    rw [if_neg hne, if_neg (Nat.not_lt.2 hlength)]
  | .noUnsigned h => .of_forall fun _ => .of_missing fun s => by
    simp only [Parser.eval_unsigned, Run.unsigned, spanAt_eq, List.isEmpty_iff]
    rw [if_pos h]
  | .longUnsigned h => .of_forall fun _ => .of_missing fun s => by
    simp only [Parser.eval_unsigned, Run.unsigned, spanAt_eq, List.isEmpty_iff]
    rw [if_neg (List.length_pos_iff.1 (Nat.zero_lt_of_lt h)), if_pos h]
  | .blanks h => .of_forall fun _ => .of_accepted fun s => by
    simp only [Parser.eval_blanks, Run.blanks, spanAt_eq, h]
  | .endOfInput h => .of_forall fun _ => .of_accepted fun s => by
    rw [Parser.eval_endOfInput, Run.endOfInput, if_pos h]
  | .noEnd h => .of_forall fun _ => .of_missing fun s => by
    rw [Parser.eval_endOfInput, Run.endOfInput, if_neg h]
  -- the readings of the parts are shared by all runs with enough references for both
  | .both h h' => by
    filter_upwards [h.reaches, h'.reaches] with limit hp hq
    exact hp.both hq
  | .bothFirst h => by
    filter_upwards [h.reaches] with limit hp
    exact hp.andThen_halted
  | .bothSecond h h' => by
    filter_upwards [h.reaches, h'.reaches] with limit hp hq
    exact hp.both hq
  | .orElse h => by
    filter_upwards [h.reaches] with limit hp
    exact hp.recover_of_ne nofun
  | .orElseDeep h => by
    filter_upwards [h.reaches] with limit hp
    exact hp.recover_of_ne nofun
  | .orElseNext h h' => by
    filter_upwards [h.reaches, h'.reaches] with limit hp hq
    exact hp.recover hq.recover_giveUp
  | .opt h => by
    filter_upwards [h.reaches] with limit hp
    exact (hp.map some).recover_of_ne nofun
  | .optNone h => by
    filter_upwards [h.reaches] with limit hp
    exact hp.optional_none
  | .optDeep h => by
    filter_upwards [h.reaches] with limit hp
    exact (hp.map some).recover_of_ne nofun
  | .sepBy1 h h' => by
    filter_upwards [h.reaches, h'.repeats] with limit hp hq
    exact hp.sepBy1 hq
  | .sepBy1First h => by
    filter_upwards [h.reaches] with limit hp
    exact hp.andThen_halted
  | .sepBy1Rest h h' => by
    filter_upwards [h.reaches, h'.repeats] with limit hp hq
    exact hp.sepBy1 hq
  | .map h => by
    filter_upwards [h.reaches] with limit hp
    exact hp.map _
  | .mapHalted h => by
    filter_upwards [h.reaches] with limit hp
    exact hp.andThen_halted
  | .nested hlt h => by
    filter_upwards [h.reaches] with limit hp
    exact hp.deeper hlt
  | .nestedDeep hle => .of_forall fun _ => .tooDeep hle
  | .alloc h => by
    filter_upwards [h.reaches] with limit hp
    exact hp.alloc _
  | .allocHalted h => by
    filter_upwards [h.reaches] with limit hp
    exact hp.andThen_halted
  | .ref h => Parser.eventually_callWithin h.reaches

theorem Repeats.repeats {α : Type} {p : Parser ν ρ α} {l : Place} {j : List Event}
    {result : Result ν (List α)} : Repeats input rules p l j result →
      ∀ᶠ limit in atTop, (p.eval input (Parser.callWithin input rules limit)).RepeatsTo
        input.text.size l j result
  | .done h => by
    filter_upwards [h.reaches] with limit hp
    exact .halted hp (fun _ => rfl) nofun
  | .deep h => by
    filter_upwards [h.reaches] with limit hp
    exact .halted hp nofun fun _ => rfl
  | .more h h' => by
    filter_upwards [h.reaches, h'.repeats] with limit hp hq
    exact .more (Parser.eval_uniform_shape limit _) (h.confined.next _ rfl) hp hq
  | .moreHalted h h' => by
    filter_upwards [h.reaches, h'.repeats] with limit hp hq
    exact .more (Parser.eval_uniform_shape limit _) (h.confined.next _ rfl) hp hq

end

end

/-! ### What is seen of a run -/

/-- The expression has a reading that ends like this. -/
def Means (input : Input) (rules : Rules ν ρ) (p : Parser ν ρ α) (place : Place)
    (result : Result ν α) : Prop :=
  ∃ journal, Derives input rules p place journal result

/-- What is seen of a run that has started in a state is the given ending: a match with
its value, its position and its nodes behind those that were there, or no match, or an
excess of depth. -/
def Result.Shown (result : Result ν α) (s : State ν) : Outcome α × State ν → Prop
  | (.accepted value next, s') => ∃ nodes, result = .matched value next nodes ∧
      s'.arena.toList = s.arena.toList ++ nodes
  | (.backtracked _, _) => result = .halted .failed
  | (.tooDeep _, _) => result = .halted .tooDeep
  | (.exhausted, _) => False

theorem Result.Shown.unique {result result' : Result ν α} {s : State ν} {x : Outcome α × State ν}
    (h : result.Shown s x) (h' : result'.Shown s x) : result = result' := by
  obtain ⟨outcome, s'⟩ := x
  cases outcome with
  | accepted =>
    obtain ⟨nodes, rfl, harena⟩ := h
    obtain ⟨nodes', rfl, harena'⟩ := h'
    rw [List.append_cancel_left (harena.symm.trans harena')]
  | backtracked | tooDeep => exact Eq.trans h (Eq.symm h')
  | exhausted => exact h.elim

theorem Result.Shown.of_accepted {result : Result ν α} {s : State ν} {x : Outcome α × State ν}
    {value : α} {next : Nat} (h : result.Shown s x) (hx : x.1 = .accepted value next) :
    ∃ nodes, result = .matched value next nodes ∧
      x.2.arena.toList = s.arena.toList ++ nodes := by
  obtain ⟨_, s'⟩ := x
  cases hx
  exact h

/-- A run that ends shows one of the readings that it ensures. -/
theorem Run.Ensures.shown {run : Run ν α} {s : State ν} {pos : Nat}
    {D : List Event → Result ν α → Prop} {limited : Prop}
    (h : run.Ensures s pos (.derived D limited s))
    (hends : (run s pos).1 = .exhausted → ¬ limited) :
    ∃ journal result, D journal result ∧ result.Shown s (run s pos) ∧
      s.Leads journal (run s pos).2 := by
  unfold Run.Ensures at h
  split at h
  · next hrun =>
    obtain ⟨j, nodes, hj, hs', harena⟩ := h
    rw [hrun]
    exact ⟨j, _, hj, ⟨nodes, rfl, harena⟩, hs'⟩
  · next hrun =>
    obtain ⟨j, hj, hs'⟩ := h
    rw [hrun]
    exact ⟨j, _, hj, rfl, hs'⟩
  · next hrun =>
    obtain ⟨j, hj, hs'⟩ := h
    rw [hrun]
    exact ⟨j, _, hj, rfl, hs'⟩
  · next hrun => exact (hends (congrArg Prod.fst hrun) h).elim

section
variable {input : Input} {rules : Rules ν ρ} {p : Parser ν ρ α} {s : State ν} {pos : Nat}

theorem Parser.evalWithin_derives (rules : Rules ν ρ) (limit : Nat) (p : Parser ν ρ α)
    (s : State ν) (pos : Nat) :
    (p.evalWithin input rules limit).Ensures s pos
      (.derived (Derives input rules p (s.place pos)) True s) := by
  rw [evalWithin_eq]
  exact eval_derives (fun rule s pos => callWithin_derives limit rule s pos) p s pos

theorem Derives.eventually_shown {journal : List Event} {result : Result ν α}
    (h : Derives input rules p (s.place pos) journal result) :
    ∀ᶠ limit in atTop, result.Shown s (p.evalWithin input rules limit s pos) ∧
      s.Leads journal (p.evalWithin input rules limit s pos).2 := by
  filter_upwards [h.reaches] with limit hreaches
  rw [Parser.evalWithin_eq]
  obtain ⟨_, _, ⟨rfl, rfl⟩, hshown⟩ := (hreaches s pos rfl).shown fun _ => id
  exact hshown

/-- A run that ends shows every reading of the expression, and notes its events. -/
theorem Derives.shown {journal : List Event} {result : Result ν α}
    (h : Derives input rules p (s.place pos) journal result) {limit : Nat}
    (hends : (p.evalWithin input rules limit s pos).1 ≠ .exhausted) :
    result.Shown s (p.evalWithin input rules limit s pos) ∧
      s.Leads journal (p.evalWithin input rules limit s pos).2 := by
  obtain ⟨limit', hshown, hle⟩ := (h.eventually_shown.and (eventually_ge_atTop limit)).exists
  rwa [Parser.evalWithin_of_le rules hle hends] at hshown

theorem Means.unique {result result' : Result ν α} (h : Means input rules p (s.place pos) result)
    (h' : Means input rules p (s.place pos) result') : result = result' := by
  obtain ⟨j, hj⟩ := h
  obtain ⟨j', hj'⟩ := h'
  obtain ⟨limit, hshown, hshown'⟩ := (hj.eventually_shown.and hj'.eventually_shown).exists
  exact hshown.1.unique hshown'.1

/-- What a run stores depends on the place where it starts, and on nothing else. -/
theorem Parser.evalWithin_congr (limit : Nat) (p : Parser ν ρ α) {s t : State ν} (pos : Nat)
    (hdepth : t.depth = s.depth) (hsize : t.arena.size = s.arena.size) :
    (p.evalWithin input rules limit t pos).1 = (p.evalWithin input rules limit s pos).1 ∧
      ∃ nodes, ∀ value next, (p.evalWithin input rules limit s pos).1 = .accepted value next →
        (p.evalWithin input rules limit s pos).2.arena.toList = s.arena.toList ++ nodes ∧
        (p.evalWithin input rules limit t pos).2.arena.toList = t.arena.toList ++ nodes := by
  have hsame := (evalWithin_uniform input rules True limit p s t pos
    ⟨hdepth.symm, fun _ => hsize.symm⟩).outcome
  refine ⟨hsame, ?_⟩
  cases houtcome : (p.evalWithin input rules limit s pos).1 with
  | accepted value next =>
    have hends : (p.evalWithin input rules limit s pos).1 ≠ .exhausted := by simp [houtcome]
    have hends' : (p.evalWithin input rules limit t pos).1 ≠ .exhausted := hsame ▸ hends
    obtain ⟨j, r, hj, hshown, -⟩ :=
      (evalWithin_derives rules limit p s pos).shown fun h => (hends h).elim
    obtain ⟨j', r', hj', hshown', -⟩ :=
      (evalWithin_derives rules limit p t pos).shown fun h => (hends' h).elim
    have hplace : t.place pos = s.place pos := by
      rw [State.place, State.place, hdepth, hsize]
    rw [hplace] at hj'
    obtain rfl : r = r' := Means.unique ⟨j, hj⟩ ⟨j', hj'⟩
    obtain ⟨nodes, rfl, harena⟩ := hshown.of_accepted houtcome
    obtain ⟨_, ⟨⟩, harena'⟩ := hshown'.of_accepted (hsame.trans houtcome)
    exact ⟨nodes, fun _ _ _ => ⟨harena, harena'⟩⟩
  | backtracked | tooDeep | exhausted => exact ⟨[], by simp⟩

/-- An index that is handed out belongs to the last node, which is built from the value
that was read. -/
theorem Parser.evalWithin_alloc {limit index next : Nat} {build : α → ν} {s' : State ν}
    (hrun : (p.alloc build).evalWithin input rules limit s pos = (.accepted index next, s')) :
    index + 1 = s'.arena.size ∧
      ∃ value, (p.evalWithin input rules limit s pos).1 = .accepted value next ∧
        s'.arena[index]? = some (build value) := by
  rw [evalWithin_eq] at hrun ⊢
  simp only [eval, Run.andThen] at hrun
  cases hbody : p.eval input (callWithin input rules limit) s pos with
  | mk outcome s₁ =>
    rw [hbody] at hrun
    cases outcome with
    | accepted value mid =>
      cases hrun
      refine ⟨(Array.size_push _).symm, value, rfl, ?_⟩
      exact Array.getElem?_push_size
    | backtracked | tooDeep | exhausted => cases hrun

/-- Runs and readings are two ways to say the same. What a run shows is the only meaning
of the expression at its place. -/
theorem backtracking_leaves_no_trace (input : Input) (rules : Rules ν ρ) (p : Parser ν ρ α)
    (s : State ν) (pos : Nat) :
    (∀ limit, (p.evalWithin input rules limit s pos).1 ≠ .exhausted →
      ∃ result, Means input rules p (s.place pos) result ∧
        result.Shown s (p.evalWithin input rules limit s pos)) ∧
    (∀ result, Means input rules p (s.place pos) result →
      ∀ᶠ limit in atTop, result.Shown s (p.evalWithin input rules limit s pos)) ∧
    (∀ result result', Means input rules p (s.place pos) result →
      Means input rules p (s.place pos) result' → result = result') ∧
    (∀ t limit, t.depth = s.depth → t.arena.size = s.arena.size →
      (p.evalWithin input rules limit t pos).1 = (p.evalWithin input rules limit s pos).1 ∧
      ∃ nodes, ∀ value next, (p.evalWithin input rules limit s pos).1 = .accepted value next →
        (p.evalWithin input rules limit s pos).2.arena.toList = s.arena.toList ++ nodes ∧
        (p.evalWithin input rules limit t pos).2.arena.toList = t.arena.toList ++ nodes) ∧
    (∀ (build : α → ν) limit index next s',
      (p.alloc build).evalWithin input rules limit s pos = (.accepted index next, s') →
        index + 1 = s'.arena.size ∧
        ∃ value, (p.evalWithin input rules limit s pos).1 = .accepted value next ∧
          s'.arena[index]? = some (build value)) := by
  refine ⟨fun limit hends => ?_, ?_, fun _ _ h h' => h.unique h', ?_, ?_⟩
  · obtain ⟨j, result, hj, hshown, -⟩ :=
      (Parser.evalWithin_derives rules limit p s pos).shown fun h => (hends h).elim
    exact ⟨result, ⟨j, hj⟩, hshown⟩
  · rintro result ⟨j, hj⟩
    exact hj.eventually_shown.mono fun _ h => h.1
  · exact fun t limit hdepth hsize => Parser.evalWithin_congr limit p pos hdepth hsize
  · exact fun build limit index next s' hrun => Parser.evalWithin_alloc hrun

end

/-- The first alternative has stored a node before it fails. The second one starts where
the first one did, and the index of its node is that of the next one to be stored. -/
theorem backtracking_leaves_no_trace_of_failed_alternative :
    let rules : Rules String fun _ => Empty := nofun
    let p : Parser String (fun _ => Empty) Nat :=
      .orElse ((Parser.alloc id (.literal "a")).terminated (.literal "c"))
        (.alloc id (.literal "ab"))
    let s : State String := { arena := #["x"] }
    (p.evalWithin (.ofString "ab" 0) rules 0 s 0).1 = .accepted 1 2 ∧
      Means (.ofString "ab" 0) rules p (s.place 0) (.matched 1 2 ["ab"]) := by
  intro rules p s
  have hrun : p.evalWithin (.ofString "ab" 0) rules 0 s 0 =
      (.accepted 1 2, { arena := #["x", "ab"], furthest := 1, expected := [.literal "c"] }) := by
    rfl
  obtain ⟨result, hmeans, hshown⟩ :=
    (backtracking_leaves_no_trace (.ofString "ab" 0) rules p s 0).1 0 (by rw [hrun]; nofun)
  rw [hrun] at hshown
  obtain ⟨nodes, rfl, harena⟩ := hshown
  cases harena
  exact ⟨congrArg Prod.fst hrun, hmeans⟩

end StreamTypes.Peg
