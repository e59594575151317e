import StreamTypes.Proofs.Peg.Room
import StreamTypes.Proofs.River.Layout

/-!
# Reading an expression

In front of an expression the rule reads exactly this expression and stores the layout of
its type behind the nodes that are already there, unless the type nests too deeply. The
alternatives that are tried before leave no node behind.

## Main definitions

- `Stores`, `StoresRest` — an expression, or further members, are read

## Main statements

- `yields_arguments` — reading the parameters of a wrapping form
- `choice_formOf` — the alternatives to a form leave nothing behind
- `stores_river` — reading an expression
-/

namespace StreamTypes.River

open Peg

variable {ν : Type} {ρ : Type → Type} {input : Input} {call : ∀ {α : Type}, ρ α → Run ν α}
  {g w a r : List Char} {params : Params} {field : Option Nat}

/-! ### Parameters -/

/-- What stands behind a parameter: another one, or the end of the form. -/
def Delimited (r : List Char) : Prop :=
  r.head? = some ',' ∨ r.head? = some '>'

theorem Delimited.isDigit (h : Delimited r) : ∀ c ∈ r.head?, c.isDigit = false := by
  intro c hc
  rcases h with h | h <;> cases h.symm.trans hc <;> decide

theorem Delimited.isGap (h : Delimited r) : ∀ c ∈ r.head?, isGap c = false := by
  intro c hc
  rcases h with h | h <;> cases h.symm.trans hc <;> decide

theorem yields_field (h : Field field w) (hr : Delimited r) :
    Yields input (Run.optional (Run.unsigned input) : Run ν (Option Nat)) w r field := by
  cases h with
  | empty => exact (Misses.unsigned hr.isDigit).optional
  | written hw => exact (Yields.unsigned hw hr.isDigit).optional

/-- A comma, a gap and a later parameter. -/
theorem yields_laterParam (hg : g ∈ gaps) (h : Field field w) (hr : Delimited r) :
    Yields input ((laterParam : Parser ν ρ (Option Nat)).eval input call)
      (',' :: (g ++ w)) r field := by
  have hgap : ∀ c ∈ (w ++ r).head?, isGap c = false := by
    cases h with
    | empty => exact hr.isGap
    | written hw => exact isGap_head_of_numeral hw
  exact (((Yields.comma hg hgap).both (yields_field h hr)).map Prod.snd).optional.map Option.join

theorem yields_laterParam_nil (hr : r.head? ≠ some ',') :
    Yields input ((laterParam : Parser ν ρ (Option Nat)).eval input call) [] r none :=
  (Misses.optional (((Misses.comma hr).andThen _).andThen _)).map Option.join

theorem yields_params {n : Nat} {c u : Option Nat} {x y : List Char}
    (hw : Text.IsNumeral w n) (hhead : ∀ d ∈ (x ++ (y ++ r)).head?, d.isDigit = false)
    (hx : Yields (ν := ν) input ((laterParam : Parser ν ρ (Option Nat)).eval input call)
      x (y ++ r) c)
    (hy : Yields (ν := ν) input ((laterParam : Parser ν ρ (Option Nat)).eval input call) y r u) :
    Yields input ((River.params : Parser ν ρ Params).eval input call) (w ++ (x ++ y)) r
      ⟨some n, c, u⟩ := by
  have hnumeral : Yields (ν := ν) input (Run.unsigned input) w (x ++ y ++ r) n := by
    rw [List.append_assoc]
    exact Yields.unsigned hw hhead
  exact (hnumeral.both (hx.both hy)).optional.map _

theorem yields_params_nil (hr : Delimited r) :
    Yields input ((River.params : Parser ν ρ Params).eval input call) [] r {} :=
  (Misses.optional ((Misses.unsigned hr.isDigit).andThen _)).map _

theorem yields_commaParams {p : List Char} (hg : g ∈ gaps)
    (hhead : ∀ c ∈ (p ++ r).head?, isGap c = false)
    (hparams : Yields (ν := ν) input ((River.params : Parser ν ρ Params).eval input call)
      p r params) :
    Yields input ((Parser.opt (.preceded .comma River.params) :
      Parser ν ρ (Option Params)).eval input call) (',' :: (g ++ p)) r (some params) :=
  (((Yields.comma hg hhead).both hparams).map Prod.snd).optional

/-- What follows the child of a wrapping form is read in full. -/
theorem yields_arguments (h : Arguments params a) (hr : r.head? = some '>') :
    ∃ v : Option Params, v.getD {} = params ∧
      Yields (ν := ν) input ((Parser.opt (.preceded .comma River.params) :
        Parser ν ρ (Option Params)).eval input call) a r v := by
  have hclose : Delimited r := .inr hr
  have hnone : r.head? ≠ some ',' := by
    rw [hr]
    decide
  cases h with
  | absent =>
    exact ⟨none, rfl, Misses.optional (((Misses.comma hnone).andThen _).andThen _)⟩
  | empty hg =>
    refine ⟨some {}, rfl, ?_⟩
    rw [← List.append_nil (_ :: _)]
    exact yields_commaParams (p := []) hg hclose.isGap (yields_params_nil hclose)
  | elements hg hw =>
    have hlast : Yields (ν := ν) input ((laterParam : Parser ν ρ (Option Nat)).eval input call)
        [] r none := yields_laterParam_nil hnone
    have hparams := yields_params (x := []) (y := []) hw hclose.isDigit hlast hlast
    rw [List.append_nil, List.append_nil] at hparams
    exact ⟨_, rfl, yields_commaParams hg (isGap_head_of_numeral hw) hparams⟩
  | @complexity n c g w g' w' hg hw hg' hc =>
    have hfirst : Yields (ν := ν) input ((laterParam : Parser ν ρ (Option Nat)).eval input call)
        (',' :: (g' ++ w')) r c := yields_laterParam hg' hc hclose
    have hparams := yields_params (y := []) hw (by simp) hfirst
      (yields_laterParam_nil hnone)
    rw [List.append_nil] at hparams
    refine ⟨_, rfl, yields_commaParams hg ?_ hparams⟩
    rw [List.append_assoc]
    exact isGap_head_of_numeral hw
  | @userbits n c u g w g' w' g'' w'' hg hw hg' hc hg'' hu =>
    have hfirst : Yields (ν := ν) input ((laterParam : Parser ν ρ (Option Nat)).eval input call)
        (',' :: (g' ++ w')) (',' :: (g'' ++ w'') ++ r) c := yields_laterParam hg' hc (.inl rfl)
    have hparams := yields_params hw (by simp) hfirst (yields_laterParam hg'' hu hclose)
    have hhead : ∀ d ∈ (w ++ (',' :: (g' ++ w') ++ ',' :: (g'' ++ w'')) ++ r).head?,
        isGap d = false := by
      rw [List.append_assoc]
      exact isGap_head_of_numeral hw
    have htext := yields_commaParams hg hhead hparams
    rw [List.cons_append, List.append_assoc] at htext
    exact ⟨_, rfl, htext⟩

/-! ### Forms -/

theorem length_enclosed (kind : Kind) (b : List Char) :
    (enclosed kind b).length = kind.keyword.toList.length + 1 + b.length + 1 := by
  rw [enclosed, List.length_append, List.length_cons, List.length_append, List.length_singleton]
  omega

section
variable {store : Node Nat → ν} {river : Parser ν ρ Nat} {kind : Kind}

/-- In front of a form of one kind the forms of the other kinds do not match. -/
theorem misses_formOf {kind' : Kind} (hne : kind' ≠ kind) :
    Misses input ((formOf store river kind').eval input call) (kind.keyword.toList ++ r) := by
  have hmisses : Misses (ν := ν) input (Run.literal input kind'.keyword)
      (kind.keyword.toList ++ r) := Misses.literal fun h => hne (kind_eq_of_keyword h)
  intro s pos hrest
  have hliteral := hmisses s pos hrest
  cases kind' <;> rw [formOf] <;>
    exact (Parser.ensures_alloc ..).2 ((Parser.ensures_form ..).2
      (hliteral.mono (fun _ _ _ h => h.elim) (fun _ h => h) (fun _ h => h) id))

/-- In front of a form of one kind a choice does what this form does. -/
theorem choice_formOf {kinds : List Kind} (hkind : kind ∈ kinds) {s : State ν} {pos : Nat}
    (hrest : input.rest pos = kind.keyword.toList ++ r) {post : Ending ν Nat}
    (hnever : ∀ s', ¬ post.backtracked s')
    (hform : ∀ s', s.Same s' → ((formOf store river kind).eval input call).Ensures s' pos post) :
    ((Parser.choice (kinds.map (formOf store river))).eval input call).Ensures s pos post :=
  ensures_choice hkind (fun _ hne => misses_formOf hne) hrest hnever hform

end

/-! ### Stored nodes -/

/-- Reading a type stores its layout, unless it nests too deeply. -/
def stored (bound : Int) (limit : Nat) (t : Term) (s : State (Node Nat)) (stop : Nat) :
    Ending (Node Nat) Nat :=
  placed bound t.nesting (t.nesting < limit) (fun v => v = s.arena.size + t.inner)
    (t.layout s.arena.size) s stop

/-- Reading further members stores their layouts, unless one of them nests too deeply. -/
def storedRest (bound : Int) (limit : Nat) (terms : List Term) (s : State (Node Nat))
    (values : List Nat) (stop : Nat) : Ending (Node Nat) (List Nat) :=
  placed bound (Term.nestingOfRest terms) (Term.nestingOfRest terms < limit)
    (fun vs => vs = values.reverse ++ Term.rootsOfRest s.arena.size terms)
    (Term.layoutOfRest s.arena.size terms) s stop

theorem stored_congr {bound : Int} {limit : Nat} {t : Term} {s s' : State (Node Nat)}
    {stop : Nat} (h : s.Same s') : stored bound limit t s' stop = stored bound limit t s stop := by
  rw [stored, stored, h.arena, placed_congr h]

theorem storedRest_congr {bound : Int} {limit : Nat} {terms : List Term}
    {s s' : State (Node Nat)} {values : List Nat} {stop : Nat} (h : s.Same s') :
    storedRest bound limit terms s' values stop = storedRest bound limit terms s values stop := by
  rw [storedRest, storedRest, h.arena, placed_congr h]

theorem size_of_layout {t : Term} {s s' : State (Node Nat)}
    (h : s'.arena.toList = s.arena.toList ++ t.layout s.arena.size) :
    s'.arena.size = s.arena.size + t.size := by
  rw [← Array.length_toList, h, List.length_append, Array.length_toList, Term.length_layout]

/-- A form is read if its brackets hold what is read inside them. Its node is the last
one of the layout. -/
theorem stores_enclosed {α : Type} {call : ∀ {α : Type}, ρ α → Run (Node Nat) α}
    {inner : Parser (Node Nat) ρ α} {build : α → Node Nat} {kind : Kind} {t : Term}
    {b : List Char} {nodes : List (Node Nat)} {node : Node Nat} {s : State (Node Nat)}
    {pos limit : Nat} (hrest : input.rest pos = enclosed kind b ++ r)
    (hlayout : t.layout s.arena.size = nodes ++ [node])
    (hinner : ∀ mid, input.rest mid = b ++ '>' :: r → (inner.eval input call).Ensures s mid
      (placed input.maxDepth t.nesting (t.nesting < limit) (fun v => build v = node) nodes s
        (mid + b.length))) :
    ((Parser.alloc build (.form kind.keyword inner)).eval input call).Ensures s pos
      (stored input.maxDepth limit t s (pos + (enclosed kind b).length)) := by
  rw [enclosed, List.append_assoc, List.cons_append, List.append_assoc,
    List.singleton_append] at hrest
  have hless : input.rest (pos + kind.keyword.toList.length) = "<".toList ++ (b ++ '>' :: r) :=
    Input.rest_add hrest
  have hbody : input.rest (pos + kind.keyword.toList.length + 1) = b ++ '>' :: r :=
    Input.rest_add hless
  rw [Parser.ensures_alloc, Parser.ensures_form]
  refine (ensures_literal_of_rest (keyword_ne_empty kind) hrest _).2 ?_
  refine (ensures_literal_of_rest (by decide) hless _).2 ?_
  refine (hinner _ hbody).mono ?_ (fun _ h => h) (fun _ h => h) id
  rintro v next s' ⟨hnode, rfl, hnodes, hdepth, hnesting⟩
  have hgreater : input.rest (pos + kind.keyword.toList.length + 1 + b.length) =
      ">".toList ++ r := Input.rest_add hbody
  have hsize : (t.layout s.arena.size).length = nodes.length + 1 := by
    rw [hlayout, List.length_append, List.length_singleton]
  rw [Term.length_layout, Term.size] at hsize
  refine (ensures_literal_of_rest (by decide) hgreater _).2 ⟨?_, ?_, ?_, hdepth, hnesting⟩
  · change s'.arena.size = s.arena.size + t.inner
    rw [← Array.length_toList, hnodes, List.length_append, Array.length_toList]
    omega
  · rw [length_enclosed]
    change _ + 1 = _
    omega
  · rw [State.push, Array.toList_push, hnodes, hnode, hlayout, List.append_assoc]

/-! ### Expressions -/

/-- In front of the text the rule reads it and stores the layout of the type. -/
def Stores (input : Input) (limit : Nat) (t : Term) (w : List Char) : Prop :=
  ∀ (s : State (Node Nat)) (pos : Nat) (r : List Char), input.rest pos = w ++ r →
    (Parser.callWithin input rules limit Rule.river).Ensures s pos
      (stored input.maxDepth limit t s (pos + w.length))

/-- One round of the list of members. -/
def member (input : Input) (limit : Nat) : Run (Node Nat) Nat :=
  (Parser.comma.eval input (Parser.callWithin input rules limit)).andThen fun _ =>
    Parser.callWithin input rules limit Rule.river

/-- In front of the text, which a bracket closes, a list with as many rounds as characters
reads it and stores the layouts of the types. -/
def StoresRest (input : Input) (limit : Nat) (terms : List Term) (a : List Char) : Prop :=
  ∀ (rounds : Nat) (values : List Nat) (s : State (Node Nat)) (pos : Nat) (r : List Char),
    0 < limit → a.length < rounds → input.rest pos = a ++ '>' :: r →
      Run.Ensures (Run.repeated (member input limit) rounds values) s pos
        (storedRest input.maxDepth limit terms s values (pos + a.length))

section
variable {limit : Nat} {t first : Term} {terms : List Term}

/-- The rule reads what the form of some kind reads. -/
theorem stores_of_formOf {kind : Kind} {b : List Char}
    (h : ∀ (s : State (Node Nat)) (pos : Nat) (r : List Char),
      input.rest pos = enclosed kind b ++ r →
        ((formOf id (.ref .river) kind).eval input (Parser.callWithin input rules limit)).Ensures
          s pos (stored input.maxDepth (limit + 1) t s (pos + (enclosed kind b).length))) :
    Stores input (limit + 1) t (enclosed kind b) := by
  intro s pos r hrest
  have hkeyword : input.rest pos = kind.keyword.toList ++ ('<' :: (b ++ ['>']) ++ r) := by
    rw [hrest, enclosed, List.append_assoc]
  rw [Parser.callWithin_succ]
  change ((anyForm id (.ref Rule.river)).eval input (Parser.callWithin input rules limit)).Ensures
    s pos _
  rw [anyForm_eq]
  refine choice_formOf (mem_attempts kind) hkeyword (fun _ h => h) fun s' hs' => ?_
  -- what is claimed does not depend on what the alternatives have noted
  rw [← stored_congr hs']
  exact h s' pos r hrest

theorem stores_bits {n : Nat} (hw : Text.IsNumeral w n) :
    Stores input (limit + 1) (.bits n) (enclosed .bits w) := by
  refine stores_of_formOf fun s pos r hrest => ?_
  have hlayout : (Term.bits n).layout s.arena.size = [] ++ [.bits n] := rfl
  refine stores_enclosed hrest hlayout fun mid hmid => ?_
  have hclose : Delimited ('>' :: r) := .inr rfl
  refine (Yields.unsigned hw hclose.isDigit s mid hmid).mono ?_ (fun _ h => h)
    (fun _ h => h.elim) False.elim
  rintro v next s' ⟨rfl, hnext, hs'⟩
  refine ⟨rfl, hnext, ?_, hs'.depth, Nat.zero_le _, Nat.succ_pos limit⟩
  rw [hs'.arena, List.append_nil]

theorem stores_wrap {wrapper : Wrapper} (hchild : Stores input limit t w)
    (ha : Arguments params a) :
    Stores input (limit + 1) (.wrap wrapper t params) (enclosed (.wrap wrapper) (w ++ a)) := by
  refine stores_of_formOf fun s pos r hrest => ?_
  refine stores_enclosed hrest rfl fun mid hmid => ?_
  have harguments : ∃ v : Option Params, v.getD {} = params ∧
      Yields input ((Parser.opt (.preceded .comma River.params) :
        Parser (Node Nat) Rule (Option Params)).eval input
          (Parser.callWithin input rules limit)) a ('>' :: r) v := yields_arguments ha rfl
  obtain ⟨v, hv, hyields⟩ := harguments
  rw [List.append_assoc] at hmid
  rw [Parser.eval_nested, Term.nesting, Nat.add_lt_add_iff_right]
  refine ensures_nested ?_
  rw [Parser.eval_both, Run.ensures_andThen]
  refine (hchild s.enter mid _ hmid).mono ?_ (fun _ h => h) (fun _ h => h) id
  rintro index next s₁ ⟨rfl, rfl, hnodes, hdepth, hnesting⟩
  refine (Run.ensures_andThen ..).2 ((hyields s₁ _ (Input.rest_add hmid)).mono ?_
    (fun _ h => h) (fun _ h => h.elim) False.elim)
  rintro v' last s₂ ⟨rfl, rfl, hs₂⟩
  refine ⟨?_, ?_, ?_, hs₂.depth.trans hdepth, hnesting⟩
  · change Node.wrap wrapper _ (v'.getD {}) = _
    rw [hv]
    rfl
  · rw [List.length_append, Nat.add_assoc]
  · rw [hs₂.arena, hnodes]
    rfl

theorem stores_members_nil : StoresRest input limit [] [] := by
  intro rounds values s pos r hlimit hrounds hrest
  cases rounds with
  | zero => exact (Nat.not_lt_zero _ hrounds).elim
  | succ rounds =>
    have hmisses : Misses input (member input limit) ('>' :: r) :=
      Misses.andThen (Misses.comma (by simp)) _
    rw [Run.ensures_repeated_succ]
    refine (hmisses s pos hrest).mono (fun _ _ _ h => h.elim) ?_ (fun _ h => h.elim) False.elim
    intro s' hs'
    refine ⟨(List.append_nil _).symm, rfl, ?_, hs'.truncate.depth, Nat.zero_le _, hlimit⟩
    rw [hs'.truncate.arena]
    exact (List.append_nil _).symm

/-- A member and those that follow it are laid out one after the other. -/
theorem stores_row (hterm : Stores input limit t w) (hmore : StoresRest input limit terms a)
    {s : State (Node Nat)} {pos : Nat} (hrest : input.rest pos = w ++ (a ++ '>' :: r))
    (rounds : Nat → Nat) (values : Nat → List Nat)
    (hrounds : a.length < rounds (pos + w.length)) :
    (Parser.callWithin input rules limit Rule.river).Ensures s pos
      ⟨fun index next s' => index = s.arena.size + t.inner ∧
          Run.Ensures (Run.repeated (member input limit) (rounds next) (values index)) s' next
            (placed input.maxDepth (max t.nesting (Term.nestingOfRest terms))
              (max t.nesting (Term.nestingOfRest terms) < limit)
              (fun vs => vs = (values index).reverse ++
                Term.rootsOfRest (s.arena.size + t.size) terms)
              (Term.layoutOfRest s.arena.size (t :: terms)) s (pos + w.length + a.length)),
        fun _ => False,
        fun _ => ¬ max t.nesting (Term.nestingOfRest terms) ≤ room input.maxDepth s.depth,
        ¬ max t.nesting (Term.nestingOfRest terms) < limit⟩ := by
  refine (hterm s pos _ hrest).mono ?_ (fun _ h => h)
    (fun s₁ h hle => h (Nat.max_le.1 hle).1) fun h hlt => h (Nat.max_lt.1 hlt).1
  rintro index next s₁ ⟨hindex, rfl, hnodes, hdepth, hnesting, hfits⟩
  have hsize : s₁.arena.size = s.arena.size + t.size := size_of_layout hnodes
  refine ⟨hindex, (hmore _ _ s₁ _ r (Nat.zero_lt_of_lt hfits) hrounds
    (Input.rest_add hrest)).mono ?_ (fun _ h => h) ?_ fun h hlt => h (Nat.max_lt.1 hlt).2⟩
  · rintro vs last s₂ ⟨rfl, rfl, hnodes', hdepth', hnesting', hfits'⟩
    rw [hdepth] at hdepth' hnesting'
    refine ⟨?_, rfl, ?_, hdepth', Nat.max_le.2 ⟨hnesting, hnesting'⟩, Nat.max_lt.2 ⟨hfits, hfits'⟩⟩
    · rw [hsize]
    · rw [hnodes', hnodes, hsize, List.append_assoc]
      rfl
  · -- behind the first member the depth is the old one, so too deep is too deep for both
    intro s₂ (h : ¬ Term.nestingOfRest terms ≤ room input.maxDepth s₁.depth) hle
    rw [hdepth] at h
    exact h (Nat.max_le.1 hle).2

theorem stores_members_cons (hg : g ∈ gaps) (hw : Expression t w)
    (hterm : Stores input limit t w) (hmore : StoresRest input limit terms a) :
    StoresRest input limit (t :: terms) (',' :: (g ++ (w ++ a))) := by
  intro rounds values s pos r hlimit hrounds hrest
  cases rounds with
  | zero => exact (Nat.not_lt_zero _ hrounds).elim
  | succ rounds =>
    have hcomma : Yields (ν := Node Nat) input (Parser.comma.eval input
        (Parser.callWithin input rules limit)) (',' :: g) (w ++ (a ++ '>' :: r)) "," :=
      Yields.comma hg (isGap_head_of_expression hw _)
    have hrest : input.rest pos = (',' :: g) ++ (w ++ (a ++ '>' :: r)) := by
      rw [hrest]
      simp
    rw [Run.ensures_repeated_succ]
    refine (Run.ensures_andThen ..).2 ((hcomma s pos hrest).mono ?_ (fun _ h => h.elim)
      (fun _ h => h.elim) False.elim)
    rintro v mid s₁ ⟨-, rfl, hs₁⟩
    rw [← storedRest_congr hs₁]
    have hlength : a.length < rounds := by
      simp only [List.length_cons, List.length_append] at hrounds
      omega
    refine (stores_row hterm hmore (Input.rest_add hrest) (fun _ => rounds)
      (fun index => index :: values) hlength).mono ?_ (fun _ h => h.elim) (fun _ h => h) id
    rintro index next s₂ ⟨rfl, hrow⟩
    refine hrow.mono ?_ (fun _ h => h.elim) (fun _ h => h) id
    rintro vs last s₃ ⟨rfl, rfl, hstate⟩
    refine ⟨?_, ?_, hstate⟩
    · rw [List.reverse_cons, List.append_assoc]
      rfl
    · simp only [List.length_cons, List.length_append]
      omega

theorem stores_collect {collection : Collection} (hfirst : Stores input limit first w)
    (hmore : StoresRest input limit terms a) :
    Stores input (limit + 1) (.collect collection first terms)
      (enclosed (.collect collection) (w ++ a)) := by
  refine stores_of_formOf fun s pos r hrest => ?_
  have hlayout : (Term.collect collection first terms).layout s.arena.size =
      (first.layout s.arena.size ++ Term.layoutOfRest (s.arena.size + first.size) terms) ++
        [.collect collection (s.arena.size + first.inner)
          (Term.rootsOfRest (s.arena.size + first.size) terms)] := by
    rw [Term.layout, List.append_assoc]
  refine stores_enclosed hrest hlayout fun mid hmid => ?_
  rw [List.append_assoc] at hmid
  rw [Parser.eval_nested, Term.nesting, Nat.add_lt_add_iff_right]
  -- there is one round more than there are characters left
  have hrounds : a.length < input.text.size - (mid + w.length) + 1 := by
    have hleft := congrArg List.length (Input.rest_add hmid)
    rw [Input.length_rest, List.length_append] at hleft
    omega
  refine ensures_nested ((Parser.ensures_sepBy1 ..).2 ((stores_row hfirst hmore hmid
    (fun next => input.text.size - next + 1) (fun _ => []) hrounds).mono ?_ (fun _ h => h)
    (fun _ h => h) id))
  rintro index next s₁ ⟨rfl, hrow⟩
  refine hrow.mono ?_ (fun _ h => h) (fun _ h => h) id
  rintro vs last s₂ ⟨rfl, rfl, hnodes, hstate⟩
  refine ⟨rfl, ?_, hnodes, hstate⟩
  rw [List.length_append, Nat.add_assoc]

end

mutual

/-- In front of an expression the rule reads it and stores the layout of its type. -/
theorem stores_river {t : Term} {w : List Char} : Expression t w →
    ∀ limit, Stores input limit t w
  | _, 0 => fun _ _ _ _ => Nat.not_lt_zero _
  | .bits hw, _ + 1 => stores_bits hw
  | .wrap hw ha, limit + 1 => stores_wrap (stores_river hw limit) ha
  | .collect hw ha, limit + 1 =>
    stores_collect (stores_river hw limit) (stores_members ha limit)

/-- In front of further members a list reads them and stores the layouts of their types. -/
theorem stores_members {terms : List Term} {a : List Char} : Members terms a →
    ∀ limit, StoresRest input limit terms a
  | .nil, _ => stores_members_nil
  | .cons hg hw ha, limit =>
    stores_members_cons hg hw (stores_river hw limit) (stores_members ha limit)

end

end StreamTypes.River
