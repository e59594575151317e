import StreamTypes.Proofs.Peg.Ensures
import StreamTypes.Proofs.Peg.Semantics

/-!
# Runs do what expressions mean

A run with its state and its catch points does what some reading of the expression says.
It stores the nodes of the reading behind those that are there, it notes the events of
its journal, and whatever an unsuccessful attempt has stored is gone.

## Main definitions

- `State.Leads` — what a run with a journal does to a state
- `Ending.derived` — a run ends like one of the given readings

## Main statements

- `Parser.eval_derives` — the run of an expression is a reading if those of the rules are
- `Parser.callWithin_derives` — every run of a rule that ends is a reading
-/

namespace StreamTypes.Peg

variable {ν α β : Type} {ρ : Type → Type}

/-! ### What a run does to a state -/

/-- From the first state a run with this journal leads to the second one. -/
structure State.Leads (s : State ν) (journal : List Event) (s' : State ν) : Prop where
  depth : s'.depth = s.depth
  note : s'.note = s.note.addAll journal
  arena : s.arena.toList <+: s'.arena.toList

namespace State.Leads

variable {s s' s'' : State ν} {journal journal' : List Event} {nodes : List ν}

theorem refl (s : State ν) : s.Leads [] s :=
  ⟨rfl, rfl, List.prefix_refl _⟩

theorem trans (h : s.Leads journal s') (h' : s'.Leads journal' s'') :
    s.Leads (journal ++ journal') s'' := by
  refine ⟨h'.depth.trans h.depth, ?_, h.arena.trans h'.arena⟩
  rw [h'.note, h.note, Note.addAll_append]

theorem record (s : State ν) (pos : Nat) (e : Expectation) :
    s.Leads [.missed pos e] (s.record pos e) := by
  refine ⟨s.depth_record pos e, s.note_record pos e, [], ?_⟩
  rw [List.append_nil, s.arena_record]

theorem recordDepth (s : State ν) (pos : Nat) :
    s.Leads [.exceeded pos] (s.recordDepth pos) :=
  ⟨rfl, rfl, List.prefix_refl _⟩

theorem arena_truncate (h : s.Leads journal s') :
    (s'.truncate s.arena.size).arena = s.arena := by
  obtain ⟨nodes, hnodes⟩ := h.arena
  refine Array.ext' ?_
  rw [State.truncate, Array.toList_shrink, ← hnodes, ← Array.length_toList, List.take_left]

theorem truncate (h : s.Leads journal s') : s.Leads journal (s'.truncate s.arena.size) :=
  ⟨h.depth, h.note, [], by rw [List.append_nil, h.arena_truncate]⟩

theorem leave (h : s.enter.Leads journal s') : s.Leads journal s'.leave :=
  ⟨State.depth_leave h.depth, h.note, h.arena⟩

theorem push (h : s.Leads journal s') (node : ν) : s.Leads journal (s'.push node) := by
  refine ⟨h.depth, h.note, h.arena.trans ?_⟩
  rw [State.push, Array.toList_push]
  exact List.prefix_append _ _

theorem place_truncate (h : s.Leads journal s') (pos : Nat) :
    (s'.truncate s.arena.size).place pos = s.place pos := by
  rw [State.place, State.place, h.arena_truncate]
  exact congrArg (Place.mk · _ _) h.depth

/-- Behind a match a run goes on at the place that belongs to it. -/
theorem place_behind (h : s.Leads journal s')
    (harena : s'.arena.toList = s.arena.toList ++ nodes) (pos mid : Nat) :
    s'.place mid = (s.place pos).behind mid nodes := by
  have hsize : s'.arena.size = s.arena.size + nodes.length := by
    rw [← Array.length_toList, harena, List.length_append, Array.length_toList]
  rw [State.place, State.place, Place.behind, hsize, h.depth]

end State.Leads

/-! ### Runs and sets of readings -/

/-- The same ending with further nodes in front. -/
def Result.after (nodes : List ν) : Result ν α → Result ν α
  | .matched value next nodes' => .matched value next (nodes ++ nodes')
  | .halted halt => .halted halt

theorem Result.after_nil (result : Result ν α) : result.after [] = result := by
  cases result <;> rfl

/-- The same ending with another value. -/
def Result.map (f : α → β) : Result ν α → Result ν β
  | .matched value next nodes => .matched (f value) next nodes
  | .halted halt => .halted halt

/-- The run ends like one of the given readings; `limited` holds if it may also run out
of references. -/
def Ending.derived (readings : List Event → Result ν α → Prop) (limited : Prop) (s : State ν) :
    Ending ν α where
  accepted value next s' := ∃ journal nodes, readings journal (.matched value next nodes) ∧
    s.Leads journal s' ∧ s'.arena.toList = s.arena.toList ++ nodes
  backtracked s' := ∃ journal, readings journal (.halted .failed) ∧ s.Leads journal s'
  tooDeep s' := ∃ journal, readings journal (.halted .tooDeep) ∧ s.Leads journal s'
  exhausted := limited

namespace Run.Ensures

variable {limited : Prop} {s : State ν} {pos : Nat}

theorem derived_yield {D : List Event → Result ν α → Prop} {value : α}
    (h : D [] (.matched value pos [])) :
    (Run.yield value).Ensures s pos (.derived D limited s) :=
  ⟨[], [], h, .refl s, (List.append_nil _).symm⟩

theorem derived_mono {run : Run ν α} {D D' : List Event → Result ν α → Prop}
    (h : run.Ensures s pos (.derived D limited s)) (hD : ∀ j r, D j r → D' j r) :
    run.Ensures s pos (.derived D' limited s) := by
  refine h.mono ?_ ?_ ?_ id
  · rintro v next s' ⟨j, nodes, hj, hs'⟩
    exact ⟨j, nodes, hD _ _ hj, hs'⟩
  · rintro s' ⟨j, hj, hs'⟩
    exact ⟨j, hD _ _ hj, hs'⟩
  · rintro s' ⟨j, hj, hs'⟩
    exact ⟨j, hD _ _ hj, hs'⟩

/-- A run that follows another one ends like the readings that follow the one of the
other. -/
theorem derived_after {run : Run ν α} {s' : State ν} {journal : List Event} {nodes : List ν}
    {D : List Event → Result ν α → Prop} (hs : s.Leads journal s')
    (harena : s'.arena.toList = s.arena.toList ++ nodes)
    (h : run.Ensures s' pos
      (.derived (fun j r => D (journal ++ j) (r.after nodes)) limited s')) :
    run.Ensures s' pos (.derived D limited s) := by
  refine h.mono ?_ ?_ ?_ id
  · rintro v next s'' ⟨j, nodes', hj, hs', harena'⟩
    refine ⟨journal ++ j, nodes ++ nodes', hj, hs.trans hs', ?_⟩
    rw [harena', harena, List.append_assoc]
  · rintro s'' ⟨j, hj, hs'⟩
    exact ⟨journal ++ j, hj, hs.trans hs'⟩
  · rintro s'' ⟨j, hj, hs'⟩
    exact ⟨journal ++ j, hj, hs.trans hs'⟩

theorem derived_andThen {first : Run ν α} {next : α → Run ν β}
    {D : List Event → Result ν α → Prop} {D' : List Event → Result ν β → Prop}
    (hfirst : first.Ensures s pos (.derived D limited s))
    (hhalted : ∀ j halt, D j (.halted halt) → D' j (.halted halt))
    (hnext : ∀ j a mid nodes s', D j (.matched a mid nodes) →
      s'.place mid = (s.place pos).behind mid nodes →
        (next a).Ensures s' mid (.derived (fun j' r => D' (j ++ j') (r.after nodes)) limited s')) :
    (first.andThen next).Ensures s pos (.derived D' limited s) := by
  rw [Run.ensures_andThen]
  refine hfirst.mono ?_ ?_ ?_ id
  · rintro a mid s' ⟨j, nodes, hj, hs', harena⟩
    exact derived_after hs' harena (hnext j a mid nodes s' hj (hs'.place_behind harena pos mid))
  · rintro s' ⟨j, hj, hs'⟩
    exact ⟨j, hhalted _ _ hj, hs'⟩
  · rintro s' ⟨j, hj, hs'⟩
    exact ⟨j, hhalted _ _ hj, hs'⟩

theorem derived_map {run : Run ν α} {f : α → β} {D : List Event → Result ν α → Prop}
    {D' : List Event → Result ν β → Prop} (h : run.Ensures s pos (.derived D limited s))
    (hD : ∀ j r, D j r → D' j (r.map f)) :
    (run.andThen fun v => Run.yield (f v)).Ensures s pos (.derived D' limited s) := by
  refine h.derived_andThen (fun j halt hj => hD _ _ hj) fun j a mid nodes s' hj _ => ?_
  refine derived_yield ?_
  rw [Result.after, List.append_nil, List.append_nil]
  exact hD _ _ hj

theorem derived_recover {first second : Run ν α} {D D' : List Event → Result ν α → Prop}
    (hfirst : first.Ensures s pos (.derived D limited s))
    (hD : ∀ j r, D j r → r ≠ .halted .failed → D' j r)
    (hsecond : ∀ j s', D j (.halted .failed) → s'.place pos = s.place pos →
      second.Ensures s' pos (.derived (fun j' r => D' (j ++ j') r) limited s')) :
    (first.recover second).Ensures s pos (.derived D' limited s) := by
  rw [Run.ensures_recover]
  refine hfirst.mono ?_ ?_ ?_ id
  · rintro a next s' ⟨j, nodes, hj, hs'⟩
    exact ⟨j, nodes, hD _ _ hj nofun, hs'⟩
  · rintro s' ⟨j, hj, hs'⟩
    have hnone : (s'.truncate s.arena.size).arena.toList = s.arena.toList ++ [] := by
      rw [hs'.arena_truncate, List.append_nil]
    refine derived_after hs'.truncate hnone ?_
    simp only [Result.after_nil]
    exact hsecond j _ hj (hs'.place_truncate pos)
  · rintro s' ⟨j, hj, hs'⟩
    exact ⟨j, hD _ _ hj nofun, hs'⟩

theorem derived_optional {body : Run ν α} {D : List Event → Result ν α → Prop}
    {D' : List Event → Result ν (Option α) → Prop}
    (h : body.Ensures s pos (.derived D limited s))
    (hD : ∀ j r, D j r → r ≠ .halted .failed → D' j (r.map some))
    (hnone : ∀ j, D j (.halted .failed) → D' j (.matched none pos [])) :
    (Run.optional body).Ensures s pos (.derived D' limited s) := by
  have hbody : (body.andThen fun v => Run.yield (some v)).Ensures s pos
      (.derived (fun j r => ∃ r', D j r' ∧ r'.map some = r) limited s) :=
    h.derived_map fun j r hj => ⟨r, hj, rfl⟩
  refine hbody.derived_recover ?_ ?_
  · rintro j _ ⟨r, hj, rfl⟩ hne
    refine hD j r hj ?_
    rintro rfl
    exact hne rfl
  · rintro j s' ⟨r, hj, hr⟩ _
    obtain rfl : r = .halted .failed := by
      cases r with
      | matched => cases hr
      | halted => exact congrArg Result.halted (Result.halted.inj hr)
    refine derived_yield ?_
    rw [List.append_nil]
    exact hnone j hj

theorem derived_repeated {step : Run ν α} {rounds : Nat} {values : List α}
    {D : List Event → Result ν α → Prop} {D' : List Event → Result ν (List α) → Prop}
    (hstep : step.Ensures s pos (.derived D limited s))
    (hdone : ∀ j, D j (.halted .failed) → D' j (.matched values.reverse pos []))
    (hdeep : ∀ j, D j (.halted .tooDeep) → D' j (.halted .tooDeep))
    (hmore : ∀ j a mid nodes s', D j (.matched a mid nodes) →
      s'.place mid = (s.place pos).behind mid nodes →
        Run.Ensures (Run.repeated step rounds (a :: values)) s' mid
          (.derived (fun j' r => D' (j ++ j') (r.after nodes)) limited s')) :
    Run.Ensures (Run.repeated step (rounds + 1) values) s pos (.derived D' limited s) := by
  rw [Run.ensures_repeated_succ]
  refine hstep.mono ?_ ?_ ?_ id
  · rintro a mid s' ⟨j, nodes, hj, hs', harena⟩
    exact derived_after hs' harena (hmore j a mid nodes s' hj (hs'.place_behind harena pos mid))
  · rintro s' ⟨j, hj, hs'⟩
    refine ⟨j, [], hdone j hj, hs'.truncate, ?_⟩
    rw [hs'.arena_truncate, List.append_nil]
  · rintro s' ⟨j, hj, hs'⟩
    exact ⟨j, hdeep j hj, hs'⟩

theorem derived_deeper {body : Run ν α} {maxDepth : Int}
    {D : List Event → Result ν α → Prop}
    (hdeep : maxDepth ≤ s.depth → D [.exceeded pos] (.halted .tooDeep))
    (hbody : s.depth < maxDepth → body.Ensures s.enter pos (.derived D limited s.enter)) :
    (Run.deeper maxDepth body).Ensures s pos (.derived D limited s) := by
  rw [Run.ensures_deeper]
  split
  · next hle => exact ⟨_, hdeep hle, .recordDepth s pos⟩
  · next hlt =>
    refine (hbody (Int.not_le.1 hlt)).mono ?_ ?_ ?_ id
    · rintro v next s' ⟨j, nodes, hj, hs', harena⟩
      exact ⟨j, nodes, hj, hs'.leave, harena⟩
    · rintro s' ⟨j, hj, hs'⟩
      exact ⟨j, hj, hs'.leave⟩
    · rintro s' ⟨j, hj, hs'⟩
      exact ⟨j, hj, hs'.leave⟩

end Run.Ensures

/-! ### Every run is a reading -/

namespace Parser

variable {input : Input} {rules : Rules ν ρ} {call : ∀ {α : Type}, ρ α → Run ν α}

theorem eval_preceded (first : Parser ν ρ α) (second : Parser ν ρ β) :
    (first.preceded second).eval input call =
      (first.eval input call).andThen fun _ => second.eval input call := by
  funext s pos
  simp only [preceded, eval_map, eval_both, Run.andThen]
  cases first.eval input call s pos with
  | mk outcome s' =>
    cases outcome with
    | accepted a mid =>
      dsimp only
      cases second.eval input call s' mid with
      | mk outcome' s'' => cases outcome' <;> rfl
    | backtracked | tooDeep | exhausted => rfl

/-- The rounds of a list are readings of the rounds. -/
theorem repeated_derives {p : Parser ν ρ α} {step : Run ν α}
    (hstep : ∀ s pos, step.Ensures s pos (.derived (Derives input rules p (s.place pos)) True s))
    (rounds : Nat) (values : List α) (s : State ν) (pos : Nat) :
    Run.Ensures (Run.repeated step rounds values) s pos
      (.derived (fun j r => ∃ r', Repeats input rules p (s.place pos) j r' ∧
        r'.map (values.reverse ++ ·) = r) True s) := by
  induction rounds generalizing values s pos with
  | zero => trivial
  | succ rounds ih =>
    refine (hstep s pos).derived_repeated ?_ ?_ fun j a mid nodes s' hj hplace => ?_
    · exact fun j hj => ⟨_, .done hj, congrArg (Result.matched · pos []) (List.append_nil _)⟩
    · exact fun j hj => ⟨_, .deep hj, rfl⟩
    · refine (ih (a :: values) s' mid).derived_mono ?_
      rintro j' _ ⟨r, hr, rfl⟩
      rw [hplace] at hr
      cases r with
      | matched as next nodes' =>
        refine ⟨_, .more hj hr, ?_⟩
        simp [Result.map, Result.after]
      | halted halt => exact ⟨_, .moreHalted hj hr, rfl⟩

/-- A run that ends is a reading, given that this holds of the rules. -/
theorem eval_derives
    (hcall : ∀ {α : Type} (rule : ρ α) s pos, (call rule).Ensures s pos
      (.derived (Derives input rules (.ref rule) (s.place pos)) True s))
    {α : Type} (p : Parser ν ρ α) (s : State ν) (pos : Nat) :
    (p.eval input call).Ensures s pos
      (.derived (Derives input rules p (s.place pos)) True s) := by
  induction p generalizing s pos with
  | pure value => exact .derived_yield .pure
  | fail => exact ⟨_, .fail, .refl s⟩
  | literal text =>
    rw [eval_literal, Run.ensures_literal]
    split
    · next h => exact ⟨_, _, .literal h, .refl s, (List.append_nil _).symm⟩
    · next h => exact ⟨_, .noLiteral h, .record s pos _⟩
  | unsigned =>
    rw [eval_unsigned, Run.ensures_unsigned]
    dsimp only
    split
    · next h => exact ⟨_, .noUnsigned h, .record s pos _⟩
    · next hne =>
      split
      · next h => exact ⟨_, .longUnsigned h, .record s pos _⟩
      · next h =>
        exact ⟨_, _, .unsigned rfl hne (Nat.not_lt.1 h), .refl s, (List.append_nil _).symm⟩
  | blanks =>
    rw [eval_blanks, Run.ensures_blanks]
    exact ⟨_, _, .blanks rfl, .refl s, (List.append_nil _).symm⟩
  | endOfInput =>
    rw [eval_endOfInput, Run.ensures_endOfInput]
    split
    · next h => exact ⟨_, _, .endOfInput h, .refl s, (List.append_nil _).symm⟩
    · next h => exact ⟨_, .noEnd h, .record s pos _⟩
  | both first second ih₁ ih₂ =>
    rw [eval_both]
    refine (ih₁ s pos).derived_andThen (fun j halt hj => .bothFirst hj) ?_
    intro j a mid nodes s' hj hplace
    refine (ih₂ s' mid).derived_map fun j' r hj' => ?_
    rw [hplace] at hj'
    cases r with
    | matched => exact .both hj hj'
    | halted => exact .bothSecond hj hj'
  | orElse first second ih₁ ih₂ =>
    rw [eval_orElse]
    refine (ih₁ s pos).derived_recover ?_ ?_
    · intro j r hj hne
      cases r with
      | matched => exact .orElse hj
      | halted halt =>
        cases halt with
        | failed => exact (hne rfl).elim
        | tooDeep => exact .orElseDeep hj
    · intro j s' hj hplace
      refine (ih₂ s' pos).derived_recover ?_ ?_
      · intro j' r hj' _
        rw [hplace] at hj'
        exact .orElseNext hj hj'
      · intro j' s'' hj' _
        rw [hplace] at hj'
        -- behind the second alternative nothing is left to try
        refine ⟨[], ?_, .refl s''⟩
        dsimp only
        rw [List.append_nil]
        exact .orElseNext hj hj'
  | opt body ih =>
    rw [eval_opt]
    refine (ih s pos).derived_optional ?_ fun j hj => .optNone hj
    intro j r hj hne
    cases r with
    | matched => exact .opt hj
    | halted halt =>
      cases halt with
      | failed => exact (hne rfl).elim
      | tooDeep => exact .optDeep hj
  | sepBy1 item separator ih₁ ih₂ =>
    -- one round is a reading of a separator and an item, of which it keeps the item
    have hround : ∀ s pos, ((separator.eval input call).andThen fun _ =>
        item.eval input call).Ensures s pos
          (.derived (Derives input rules (separator.preceded item) (s.place pos)) True s) := by
      intro s pos
      refine (ih₂ s pos).derived_andThen (fun j halt hj => .mapHalted (.bothFirst hj)) ?_
      intro j a mid nodes s' hj hplace
      refine (ih₁ s' mid).derived_mono fun j' r hj' => ?_
      rw [hplace] at hj'
      cases r with
      | matched => exact .map (.both hj hj')
      | halted => exact .mapHalted (.bothSecond hj hj')
    refine (ih₁ s pos).derived_andThen (fun j halt hj => .sepBy1First hj) ?_
    intro j a mid nodes s' hj hplace
    refine (repeated_derives hround _ [] s' mid).derived_map ?_
    rintro j' _ ⟨r, hr, rfl⟩
    rw [hplace] at hr
    cases r with
    | matched => exact .sepBy1 hj hr
    | halted => exact .sepBy1Rest hj hr
  | map f body ih =>
    rw [eval_map]
    refine (ih s pos).derived_map fun j r hj => ?_
    cases r with
    | matched => exact .map hj
    | halted => exact .mapHalted hj
  | nested body ih =>
    rw [eval_nested]
    refine Run.Ensures.derived_deeper (fun hle => .nestedDeep hle) fun hlt => ?_
    exact (ih s.enter pos).derived_mono fun j r hj => .nested hlt hj
  | alloc build body ih =>
    rw [ensures_alloc]
    refine (ih s pos).mono ?_ ?_ ?_ id
    · rintro v next s' ⟨j, nodes, hj, hs', harena⟩
      refine ⟨j, nodes ++ [build v], ?_, hs'.push _, ?_⟩
      · have hindex : s'.arena.size = (s.place pos).stored + nodes.length :=
          congrArg Place.stored (hs'.place_behind harena pos next)
        rw [hindex]
        exact .alloc hj
      · rw [State.push, Array.toList_push, harena, List.append_assoc]
    · rintro s' ⟨j, hj, hs'⟩
      exact ⟨j, .allocHalted hj, hs'⟩
    · rintro s' ⟨j, hj, hs'⟩
      exact ⟨j, .allocHalted hj, hs'⟩
  | ref rule => exact hcall rule s pos

theorem callWithin_derives (limit : Nat) (rule : ρ α) (s : State ν) (pos : Nat) :
    (callWithin input rules limit rule).Ensures s pos
      (.derived (Derives input rules (.ref rule) (s.place pos)) True s) := by
  induction limit generalizing α s pos with
  | zero => trivial
  | succ limit ih =>
    rw [callWithin_succ]
    exact (eval_derives ih (rules rule) s pos).derived_mono fun j r hj => .ref hj

end Parser

end StreamTypes.Peg
