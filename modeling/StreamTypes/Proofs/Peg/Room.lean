import StreamTypes.Proofs.Peg.Exact

/-!
# Reading within two bounds

How many forms may be nested is bounded twice: by the depth bound of the input, whose
excess is reported, and by the number of references that may be nested in a run. In front
of a known text a run reads it unless one of the bounds forbids that, and which of them it
is shows in how the run ends.

## Main definitions

- `room` — how many forms may still be nested
- `placed` — what reading does to the stored nodes and the depth
- `YieldsWithin` — what a run that stores no nodes reads, unless a bound forbids it

## Main statements

- `ensures_nested` — one form deeper there is room for one form less
- `YieldsWithin.both`, `YieldsWithin.commaList`, `YieldsWithin.form` — the combinators
-/

namespace StreamTypes.Peg

variable {ν α : Type} {bound depth : Int} {n : Nat} {fits : Prop} {value : α → Prop}
  {nodes : List ν} {s s' : State ν} {pos stop : Nat}

/-- How many forms may still be nested at a depth. -/
def room (bound depth : Int) : Nat :=
  (bound - depth).toNat

theorem room_zero (bound : Int) : room bound 0 = bound.toNat := by
  rw [room, Int.sub_zero]

theorem room_eq_zero (h : bound ≤ depth) : room bound depth = 0 := by
  rw [room]
  omega

theorem room_succ (h : ¬ bound ≤ depth) : room bound depth = room bound (depth + 1) + 1 := by
  rw [room, room]
  omega

/-- Some nodes are stored behind those that are there, and the depth stays. This is so
unless there is no room for `n` nested forms or the references in them do not fit the
limit. -/
def placed (bound : Int) (n : Nat) (fits : Prop) (value : α → Prop) (nodes : List ν)
    (s : State ν) (stop : Nat) : Ending ν α :=
  ⟨fun v next s' => value v ∧ next = stop ∧ s'.arena.toList = s.arena.toList ++ nodes ∧
      s'.depth = s.depth ∧ n ≤ room bound s.depth ∧ fits,
    fun _ => False, fun _ => ¬ n ≤ room bound s.depth, ¬ fits⟩

theorem placed_congr (h : s.Same s') :
    placed bound n fits value nodes s' stop = placed bound n fits value nodes s stop := by
  rw [placed, placed, h.arena, h.depth]

/-- One form deeper there is room for one form less. -/
theorem ensures_nested {body : Run ν α}
    (h : body.Ensures s.enter pos (placed bound n fits value nodes s.enter stop)) :
    (Run.deeper bound body).Ensures s pos (placed bound (n + 1) fits value nodes s stop) := by
  rw [Run.ensures_deeper]
  split
  · next hdepth =>
    change ¬ n + 1 ≤ room bound s.depth
    rw [room_eq_zero hdepth]
    exact Nat.not_succ_le_zero n
  · next hdepth =>
    have hroom : room bound s.depth = room bound s.enter.depth + 1 := room_succ hdepth
    refine h.mono ?_ (fun _ h => h) ?_ id
    · rintro v next s' ⟨hv, hnext, hnodes, hdepth', hle, hfits⟩
      refine ⟨hv, hnext, hnodes, State.depth_leave hdepth', ?_, hfits⟩
      rw [hroom]
      exact Nat.succ_le_succ hle
    · intro s' (hdeep : ¬ n ≤ room bound s.enter.depth) hle
      rw [hroom] at hle
      exact hdeep (Nat.le_of_succ_le_succ hle)

/-! ### Runs that store no nodes -/

/-- In front of a text that starts with `w` and goes on with `r`, the run reads `w` and
yields a value, unless there is no room for `n` nested forms or the references in them do
not fit the limit. -/
def YieldsWithin (input : Input) (n : Nat) (fits : Prop) (run : Run ν α) (w r : List Char)
    (value : α) : Prop :=
  ∀ s pos, input.rest pos = w ++ r →
    run.Ensures s pos (placed input.maxDepth n fits (· = value) [] s (pos + w.length))

section
variable {β : Type} {ρ : Type → Type} {input : Input} {n' : Nat} {fits' : Prop}
  {w w' r : List Char} {a : α} {b : β}

theorem Yields.within {run : Run ν α} (h : Yields input run w r a) :
    YieldsWithin input 0 True run w r a := by
  intro s pos hrest
  refine (h s pos hrest).mono ?_ (fun _ h => h) (fun _ h => h.elim) False.elim
  rintro v next s' ⟨hv, hnext, hs'⟩
  refine ⟨hv, hnext, ?_, hs'.depth, Nat.zero_le _, trivial⟩
  rw [hs'.arena, List.append_nil]

namespace YieldsWithin

theorem congr {run : Run ν α} (h : YieldsWithin input n fits run w r a) (hn : n = n')
    (hfits : fits ↔ fits') : YieldsWithin input n' fits' run w r a := by
  rwa [← hn, ← hfits]

/-- The second run is needed only where the first one has kept its bounds. -/
theorem andThen {first : Run ν α} {next : α → Run ν β}
    (hfirst : YieldsWithin input n fits first w (w' ++ r) a)
    (hnext : fits → YieldsWithin input n' fits' (next a) w' r b) :
    YieldsWithin input (max n n') (fits ∧ fits') (first.andThen next) (w ++ w') r b := by
  intro s pos hrest
  rw [List.append_assoc] at hrest
  rw [Run.ensures_andThen]
  refine (hfirst s pos hrest).mono ?_ (fun _ h => h)
    (fun _ h hle => h (Nat.max_le.1 hle).1) fun h hfits => h hfits.1
  rintro v mid s' ⟨rfl, rfl, hnodes, hdepth, hle, hfits⟩
  refine (hnext hfits s' _ (Input.rest_add hrest)).mono ?_ (fun _ h => h) ?_
    fun h hfits => h hfits.2
  · rintro v' last s'' ⟨rfl, rfl, hnodes', hdepth', hle', hfits'⟩
    rw [hdepth] at hle'
    refine ⟨rfl, ?_, ?_, hdepth'.trans hdepth, Nat.max_le.2 ⟨hle, hle'⟩, hfits, hfits'⟩
    · rw [List.length_append, Nat.add_assoc]
    · rw [hnodes', hnodes, List.append_nil]
  · intro s'' (h : ¬ n' ≤ room input.maxDepth s'.depth) hle
    rw [hdepth] at h
    exact h (Nat.max_le.1 hle).2

theorem map {run : Run ν α} (h : YieldsWithin input n fits run w r a) (f : α → β) :
    YieldsWithin input n fits (run.andThen fun v => Run.yield (f v)) w r (f a) := by
  have hmap : YieldsWithin input (max n 0) (fits ∧ True)
      (run.andThen fun v => Run.yield (f v)) (w ++ []) r (f a) :=
    andThen (by rwa [List.nil_append]) fun _ => (Yields.yield (f a) r).within
  rw [List.append_nil] at hmap
  exact hmap.congr (Nat.max_zero n) (and_iff_left trivial)

theorem both {first : Run ν α} {second : Run ν β}
    (hfirst : YieldsWithin input n fits first w (w' ++ r) a)
    (hsecond : fits → YieldsWithin input n' fits' second w' r b) :
    YieldsWithin input (max n n') (fits ∧ fits')
      (first.andThen fun a => second.andThen fun b => Run.yield (a, b)) (w ++ w') r (a, b) :=
  hfirst.andThen fun hfits => (hsecond hfits).map fun b => (a, b)

/-- One form deeper there is room for one form less. -/
theorem deeper {body : Run ν α} (h : YieldsWithin input n fits body w r a) :
    YieldsWithin input (n + 1) fits (Run.deeper input.maxDepth body) w r a :=
  fun s pos hrest => ensures_nested (h s.enter pos hrest)

/-- A list ends where a round does not match. -/
theorem repeated_nil {step : Run ν α} (h : Misses input step r) (rounds : Nat)
    (values : List α) :
    YieldsWithin input 0 True (Run.repeated step (rounds + 1) values) [] r values.reverse := by
  intro s pos hrest
  rw [Run.ensures_repeated_succ]
  refine (h s pos hrest).mono (fun _ _ _ h => h.elim) ?_ (fun _ h => h.elim) False.elim
  intro s' hs'
  refine ⟨rfl, rfl, ?_, hs'.truncate.depth, Nat.zero_le _, trivial⟩
  rw [hs'.truncate.arena, List.append_nil]

theorem repeated_cons {step : Run ν α} {rounds : Nat} {values vs : List α}
    (hstep : YieldsWithin input n fits step w (w' ++ r) a)
    (hmore : fits → YieldsWithin input n' fits' (Run.repeated step rounds (a :: values)) w' r vs) :
    YieldsWithin input (max n n') (fits ∧ fits') (Run.repeated step (rounds + 1) values)
      (w ++ w') r vs := by
  intro s pos hrest
  have hround : YieldsWithin input (max n n') (fits ∧ fits')
      (step.andThen fun v => Run.repeated step rounds (v :: values)) (w ++ w') r vs :=
    hstep.andThen hmore
  have hrun := (Run.ensures_andThen ..).1 (hround s pos hrest)
  rw [Run.ensures_repeated_succ]
  exact hrun.mono (fun _ _ _ h => h) (fun _ h => h.elim) (fun _ h => h) id

section
variable {call : ∀ {α : Type}, ρ α → Run ν α}

/-- Where only one alternative can match, a choice reads what this one reads. -/
theorem choice {ι : Type} {p : ι → Parser ν ρ α} {i : ι} {is : List ι} (hi : i ∈ is)
    (hmisses : ∀ j, j ≠ i → Misses input ((p j).eval input call) (w ++ r))
    (h : YieldsWithin input n fits ((p i).eval input call) w r a) :
    YieldsWithin input n fits ((Parser.choice (is.map p)).eval input call) w r a := by
  intro s pos hrest
  refine ensures_choice hi hmisses hrest (fun _ h => h) fun s' hs' => ?_
  rw [← placed_congr hs']
  exact h s' pos hrest

/-- In front of a keyword and brackets a form reads what stands inside. -/
theorem form {keyword : String} {inner : Parser ν ρ α} (hkeyword : keyword ≠ "")
    (h : YieldsWithin input n fits (inner.eval input call) w ('>' :: r) a) :
    YieldsWithin input n fits ((Parser.form keyword inner).eval input call)
      (keyword.toList ++ '<' :: (w ++ ['>'])) r a := by
  have hgreater : Yields (ν := ν) input (Run.literal input ">") ['>'] r ">" :=
    Yields.literal (by decide) r
  have hless : Yields (ν := ν) input (Run.literal input "<") ['<'] (w ++ ['>'] ++ r) "<" :=
    Yields.literal (by decide) _
  have hinner : YieldsWithin input _ _ _ (w ++ ['>']) r (a, ">") :=
    h.both fun _ => hgreater.within
  have hbrackets := (hless.within.both fun _ => hinner).map fun v => v.2.1
  have hform := ((Yields.literal hkeyword _).within.both fun _ => hbrackets).map Prod.snd
  refine hform.congr ?_ ?_
  · omega
  · simp

/-- A list reads a first item and, where the first one keeps its bounds, the other ones.
There are as many rounds as characters. -/
theorem commaList {item : Parser ν ρ α} {vs : List α}
    (hitem : YieldsWithin input n fits (item.eval input call) w (w' ++ r) a)
    (hmore : fits → ∀ rounds, w'.length < rounds → YieldsWithin input n' fits'
      (Run.repeated ((Parser.comma.eval input call).andThen fun _ => item.eval input call)
        rounds []) w' r vs) :
    YieldsWithin input (max n n') (fits ∧ fits') ((Parser.commaList item).eval input call)
      (w ++ w') r (a, vs) := by
  refine hitem.andThen fun hfits s pos hrest => ?_
  have hrounds : w'.length < input.text.size - pos + 1 := by
    have hlength := congrArg List.length hrest
    rw [Input.length_rest, List.length_append] at hlength
    omega
  exact ((hmore hfits _ hrounds).map fun tail => (a, tail)) s pos hrest

end

end YieldsWithin

end

end StreamTypes.Peg
