import StreamTypes.Proofs.Peg.Ensures
import StreamTypes.Proofs.Text.Unsigned
import Mathlib.Computability.Language

/-!
# What the furthest failure says

While a text is read, a state notes what was expected at the furthest position at
which a primitive failed. `Tracks` is the invariant that makes this note meaningful.
It relates the state to the language of all texts that may still follow: everything
that could be read instead of the actual text is either among the continuations
that are yet to be tried or starts with an expectation that has been noted. Once no
continuation is left to try, the note covers every text of the language that agrees
with the actual one up to the furthest position (`Stuck`).

The literals of a grammar are assumed to be told apart by what they start with, so
that a text starts with at most one of them.

## Main definitions

- `Expectation.Opens` — a text starts the way an expectation says
- `Expectation.Continues` — an expectation can be met at the end of a prefix
- `Prolongs` — a character only prolongs the last token of a prefix
- `Tracks`, `Stuck` — the invariant, and what is left of it in the end

## Main statements

- `Tracks.advance` — reading a token keeps the invariant
- `Tracks.record` — so does noting a failure
- `Tracks.literal`, `Tracks.comma`, `Tracks.unsigned`, `Tracks.endOfInput` — the
  same for the runs of the primitives
-/

namespace StreamTypes.Peg

variable {ν α β : Type}

/-- A text starts the way an expectation says. -/
def Expectation.Opens : Expectation → List Char → Prop
  | .literal text, v => text.toList <+: v
  | .unsigned, v | .shorterUnsigned, v => ∃ c ∈ v.head?, c.isDigit = true
  | .endOfInput, v => v = []
  | .described _, _ => False

/-- An expectation can be met at the end of a prefix of a text of the language. A
numeral is met by the digit zero. -/
def Expectation.Continues (L : Language Char) (u : List Char) : Expectation → Prop
  | .literal text => ∃ v, u ++ (text.toList ++ v) ∈ L
  | .unsigned | .shorterUnsigned => ∃ v, u ++ '0' :: v ∈ L
  | .endOfInput => u ∈ L
  | .described _ => False

/-- The actual text does not meet the expectation. -/
def Expectation.Missed (rest : List Char) : Expectation → Prop
  | .literal text => ¬ text.toList <+: rest
  | .unsigned | .shorterUnsigned =>
    rest.takeWhile Char.isDigit = [] ∨
      Text.numeralLimit < (rest.takeWhile Char.isDigit).length
  | .endOfInput => rest ≠ []
  | .described _ => True

/-- The text ends with a digit. -/
def EndsInDigit (u : List Char) : Prop :=
  ∃ u' d, u = u' ++ [d] ∧ d.isDigit = true

/-- The text ends with a comma and the spaces and tabs that follow it. -/
def EndsInGap (u : List Char) : Prop :=
  ∃ u' g, u = u' ++ ',' :: g ∧ ∀ c ∈ g, isGap c = true

/-- The character only prolongs the last token of a prefix: it is a digit after a
digit, or a space or tab where these are skipped. -/
def Prolongs (u : List Char) (c : Char) : Prop :=
  EndsInDigit u ∧ c.isDigit = true ∨ EndsInGap u ∧ isGap c = true

/-- A text that follows the prefix `u` starts with one of the expectations, or
prolongs the last token of the prefix. -/
def Covers (expected : List Expectation) (u v : List Char) : Prop :=
  (∃ e ∈ expected, e.Opens v) ∨ ∃ c ∈ v.head?, Prolongs u c

/-- The literals of a grammar: none is a proper prefix of another, and none starts
with a digit. -/
structure Lexicon (tokens : List String) : Prop where
  /-- A literal that starts with another one is equal to it. -/
  distinct : ∀ t ∈ tokens, ∀ x ∈ tokens, t.toList <+: x.toList → t = x
  /-- Literals are told apart from numerals by their first character. -/
  head : ∀ t ∈ tokens, ∃ c r, t.toList = c :: r ∧ c.isDigit = false

/-- The expectations noted at a position, if it is the furthest one. -/
def State.pendingAt (s : State ν) (pos : Nat) : List Expectation :=
  if s.furthest = pos then s.expected else []

/-- An expectation is noted rightly at a position: it can be met there, and the
actual text does not meet it. -/
structure Expectation.Justified (input : Input) (L : Language Char) (tokens : List String)
    (pos : Nat) (e : Expectation) : Prop where
  known : ∀ text, e = .literal text → text ∈ tokens
  continues : e.Continues L (input.before pos)
  missed : e.Missed (input.rest pos)

section
variable (input : Input) (L : Language Char) (tokens : List String)

/-- Nothing is left to try, and the note at the furthest position covers every text
of the language that agrees with the actual text so far. -/
structure Stuck (s : State ν) : Prop where
  furthest_le : s.furthest ≤ input.text.size
  justified : ∀ e ∈ s.expected, e.Justified input L tokens s.furthest
  listed : s.furthest = 0 ∨ s.expected ≠ []
  covers : ∀ v, input.before s.furthest ++ v ∈ L →
    Covers s.expected (input.before s.furthest) v

/-- `M` holds what is yet to be tried at a position, and nothing has failed behind the
position: a text that may follow is in `M` or covered by the note. -/
structure Tracks.Open (M : Language Char) (s : State ν) (pos : Nat) : Prop where
  furthest_le : s.furthest ≤ pos
  settled : ∀ c ∈ (input.rest pos).head?, ¬ Prolongs (input.before pos) c
  covers : ∀ v, input.before pos ++ v ∈ L →
    v ∈ M ∨ Covers (s.pendingAt pos) (input.before pos) v

/-- Something has failed behind the position, and nothing that is yet to be tried
agrees with the actual text up to there. -/
structure Tracks.Passed (M : Language Char) (s : State ν) (pos : Nat) : Prop where
  lt_furthest : pos < s.furthest
  covers : ∀ v, input.before s.furthest ++ v ∈ L →
    Covers s.expected (input.before s.furthest) v
  dead : ∀ v ∈ M, ¬ (input.rest pos).take (s.furthest - pos) <+: v

/-- The invariant of a parse: `M` is the language of what is yet to be tried at a
position, where the whole text has to be in `L`. -/
structure Tracks (M : Language Char) (s : State ν) (pos : Nat) : Prop where
  pos_le : pos ≤ input.text.size
  furthest_le : s.furthest ≤ input.text.size
  sound : ∀ v ∈ M, input.before pos ++ v ∈ L
  justified : ∀ e ∈ s.expected, e.Justified input L tokens s.furthest
  listed : s.furthest = 0 ∨ s.expected ≠ []
  complete : Tracks.Open input L M s pos ∨ Tracks.Passed input L M s pos

end

variable {input : Input} {L K M : Language Char} {tokens : List String} {s s' : State ν}
  {pos next : Nat} {e : Expectation} {u v w r : List Char}

theorem not_prolongs_nil (c : Char) : ¬ Prolongs [] c := by
  rintro (⟨⟨u, d, hu, -⟩, -⟩ | ⟨⟨u, g, hu, -⟩, -⟩)
  · simp at hu
  · simp at hu

theorem Expectation.Continues.exists_append (h : e.Continues L u) : ∃ v, u ++ v ∈ L := by
  cases e with
  | literal text =>
    obtain ⟨v, hv⟩ := h
    exact ⟨_, hv⟩
  | unsigned | shorterUnsigned =>
    obtain ⟨v, hv⟩ := h
    exact ⟨_, hv⟩
  | endOfInput => exact ⟨[], by rwa [List.append_nil]⟩
  | described => exact h.elim

/-! ### States -/

/-- Only the note in a state counts. -/
theorem Tracks.congr (h : Tracks input L tokens M s pos) (hfurthest : s'.furthest = s.furthest)
    (hexpected : s'.expected = s.expected) : Tracks input L tokens M s' pos := by
  cases s
  cases s'
  cases hfurthest
  cases hexpected
  refine ⟨h.pos_le, h.furthest_le, h.sound, h.justified, h.listed, ?_⟩
  exact h.complete.imp (fun o => ⟨o.furthest_le, o.settled, o.covers⟩)
    (fun p => ⟨p.lt_furthest, p.covers, p.dead⟩)

theorem Stuck.congr (h : Stuck input L tokens s) (hfurthest : s'.furthest = s.furthest)
    (hexpected : s'.expected = s.expected) : Stuck input L tokens s' := by
  cases s
  cases s'
  cases hfurthest
  cases hexpected
  exact ⟨h.furthest_le, h.justified, h.listed, h.covers⟩

/-- Unless the language is empty, a final note lists something. -/
theorem Stuck.expected_ne_nil (h : Stuck input L tokens s) (hL : ∃ v, v ∈ L) :
    s.expected ≠ [] := by
  rcases h.listed with hzero | hne
  · -- at the start of the text an empty note would cover no text of the language
    intro hnil
    obtain ⟨v, hv⟩ := hL
    have hcovers := h.covers v (by rwa [hzero])
    rw [hzero, hnil] at hcovers
    rcases hcovers with ⟨e, he, -⟩ | ⟨c, -, hprolongs⟩
    · simp at he
    · exact not_prolongs_nil c hprolongs
  · exact hne

theorem State.record_of_lt (h : pos < s.furthest) : s.record pos e = s := by
  rw [State.record, if_neg (by omega), if_neg (by omega)]

theorem State.furthest_record (h : s.furthest ≤ pos) : (s.record pos e).furthest = pos := by
  unfold State.record
  split
  · rfl
  · split
    · assumption
    · omega

/-- Noting a failure at or behind the furthest position adds to what is noted there. -/
theorem State.mem_expected_record (h : s.furthest ≤ pos) (x : Expectation) :
    x ∈ (s.record pos e).expected ↔ x = e ∨ x ∈ s.pendingAt pos := by
  unfold State.record State.pendingAt
  split
  · rw [if_neg (by omega)]
    simp
  · rw [if_pos (by omega), if_pos (by omega)]
    simp [List.mem_insert_iff]

/-! ### Token boundaries -/

theorem EndsInGap.last (h : EndsInGap u) :
    ∃ u' c, u = u' ++ [c] ∧ (c = ',' ∨ isGap c = true) := by
  obtain ⟨u', g, rfl, hg⟩ := h
  obtain rfl | ⟨g', c, rfl⟩ := List.eq_nil_or_concat g
  · exact ⟨u', ',', rfl, .inl rfl⟩
  · exact ⟨u' ++ ',' :: g', c, by simp, .inr (hg c (by simp))⟩

theorem isDigit_eq_false_of_gap {c : Char} (h : c = ',' ∨ isGap c = true) :
    c.isDigit = false := by
  simp only [isGap, Bool.or_eq_true, decide_eq_true_eq] at h
  rcases h with rfl | rfl | rfl <;> decide

theorem isGap_head_of_numeral {n : Nat} (hw : Text.IsNumeral w n) :
    ∀ c ∈ (w ++ r).head?, isGap c = false := by
  obtain ⟨d, w, rfl⟩ := List.exists_cons_of_ne_nil hw.ne_nil
  intro c hc
  obtain rfl : d = c := Option.mem_some_iff.1 hc
  have hd := hw.isDigit d (by simp)
  by_contra hgap
  rw [isDigit_eq_false_of_gap (.inr ((Bool.not_eq_false _).mp hgap))] at hd
  exact absurd hd (by decide)

/-- Behind a character that ends neither a numeral nor a gap nothing is prolonged. -/
theorem not_prolongs_of_last {c : Char} (hdigit : c.isDigit = false)
    (hgap : isGap c = false) (hcomma : c ≠ ',') (d : Char) : ¬ Prolongs (u ++ [c]) d := by
  rintro (⟨⟨u', x, hu', hx⟩, -⟩ | ⟨hends, -⟩)
  · obtain ⟨-, hc⟩ := List.append_inj' hu' rfl
    rw [List.singleton_inj.1 hc, hx] at hdigit
    exact absurd hdigit (by decide)
  · obtain ⟨u', x, hu', hx⟩ := hends.last
    obtain ⟨-, hc⟩ := List.append_inj' hu' rfl
    rw [← List.singleton_inj.1 hc] at hx
    rcases hx with hx | hx
    · exact hcomma hx
    · rw [hx] at hgap
      exact absurd hgap (by decide)

theorem endsInDigit_append (hw : w ≠ []) (hdigits : ∀ c ∈ w, c.isDigit = true) :
    EndsInDigit (u ++ w) := by
  obtain ⟨w', d, rfl⟩ := (List.eq_nil_or_concat w).resolve_left hw
  exact ⟨u ++ w', d, by simp, hdigits d (by simp)⟩

theorem isDigit_of_prolongs {c : Char} (hw : w ≠ []) (hdigits : ∀ c ∈ w, c.isDigit = true)
    (h : Prolongs (u ++ w) c) : c.isDigit = true := by
  obtain ⟨w', d, rfl⟩ := (List.eq_nil_or_concat w).resolve_left hw
  have hd : d.isDigit = true := hdigits d (by simp)
  rcases h with ⟨-, h⟩ | ⟨hends, -⟩
  · exact h
  · obtain ⟨u', x, hu', hx⟩ := hends.last
    rw [List.concat_eq_append, ← List.append_assoc] at hu'
    obtain ⟨-, hc⟩ := List.append_inj' hu' rfl
    rw [List.singleton_inj.1 hc, isDigit_eq_false_of_gap hx] at hd
    exact absurd hd (by decide)

theorem isGap_of_prolongs {c : Char} (hgap : ∀ c ∈ w, isGap c = true)
    (h : Prolongs (u ++ ',' :: w) c) : isGap c = true := by
  rcases h with ⟨⟨u', d, hu', hd⟩, -⟩ | ⟨-, h⟩
  · obtain ⟨u'', x, hu'', hx⟩ := EndsInGap.last ⟨u, w, rfl, hgap⟩
    rw [hu''] at hu'
    obtain ⟨-, hc⟩ := List.append_inj' hu' rfl
    rw [← List.singleton_inj.1 hc, isDigit_eq_false_of_gap hx] at hd
    exact absurd hd (by decide)
  · exact h

/-! ### Keeping the invariant -/

/-- At the start of a text everything is yet to be tried. -/
theorem Tracks.start (input : Input) (L : Language Char) (tokens : List String) :
    Tracks input L tokens L ({} : State ν) 0 := by
  refine ⟨Nat.zero_le _, Nat.zero_le _, fun v hv => hv, by simp, .inl rfl, .inl ?_⟩
  exact ⟨le_rfl, fun c _ => not_prolongs_nil c, fun v hv => .inl hv⟩

/-- Where nothing is left to try after a failure, the note is final. -/
theorem Tracks.stuck (h : Tracks input L tokens 0 s pos) (hpos : pos ≤ s.furthest) :
    Stuck input L tokens s := by
  refine ⟨h.furthest_le, h.justified, h.listed, ?_⟩
  rcases h.complete with hopen | hpassed
  · have heq : s.furthest = pos := Nat.le_antisymm hopen.furthest_le hpos
    intro v hv
    rw [heq] at hv ⊢
    have hcovers := (hopen.covers v hv).resolve_left (Language.notMem_zero v)
    rwa [State.pendingAt, if_pos heq] at hcovers
  · exact hpassed.covers

/-- A failure behind a position leaves the alternatives there to be tried, none of
which agrees with the text as far as it has been read. -/
theorem Stuck.tracks (h : Stuck input L tokens s) (hlt : pos < next)
    (hnext : next ≤ s.furthest) (hsound : ∀ v ∈ M, input.before pos ++ v ∈ L)
    (hdead : ∀ v ∈ M, ¬ (input.rest pos).take (next - pos) <+: v) :
    Tracks input L tokens M s pos := by
  refine ⟨?_, h.furthest_le, hsound, h.justified, h.listed, .inr ?_⟩
  · exact Nat.le_trans (by omega) h.furthest_le
  · refine ⟨by omega, h.covers, fun v hv hprefix => hdead v hv ?_⟩
    refine List.IsPrefix.trans ?_ hprefix
    exact List.take_prefix_take_left (by omega)

/-- Noting a failure keeps the invariant if what is given up starts as expected. -/
theorem Tracks.record (h : Tracks input L tokens K s pos) (hM : ∀ v ∈ M, v ∈ K)
    (hopens : ∀ v ∈ K, v ∈ M ∨ e.Opens v) (he : e.Justified input L tokens pos) :
    Tracks input L tokens M (s.record pos e) pos ∧ pos ≤ (s.record pos e).furthest := by
  have hsound : ∀ v ∈ M, input.before pos ++ v ∈ L := fun v hv => h.sound v (hM v hv)
  rcases h.complete with hopen | hpassed
  · have hfurthest := State.furthest_record (e := e) hopen.furthest_le
    have hmem := State.mem_expected_record (e := e) hopen.furthest_le
    refine ⟨⟨h.pos_le, by rw [hfurthest]; exact h.pos_le, hsound, ?_, .inr ?_, .inl ?_⟩,
      by rw [hfurthest]⟩
    · intro x hx
      rw [hfurthest]
      rcases (hmem x).1 hx with rfl | hx
      · exact he
      · unfold State.pendingAt at hx
        split at hx
        · next heq => exact heq ▸ h.justified x hx
        · simp at hx
    · exact List.ne_nil_of_mem ((hmem e).2 (.inl rfl))
    · refine ⟨by rw [hfurthest], hopen.settled, fun v hv => ?_⟩
      rw [State.pendingAt, if_pos hfurthest]
      rcases hopen.covers v hv with hv | ⟨x, hx, hxv⟩ | hv
      · rcases hopens v hv with hv | hv
        · exact .inl hv
        · exact .inr (.inl ⟨e, (hmem e).2 (.inl rfl), hv⟩)
      · exact .inr (.inl ⟨x, (hmem x).2 (.inr hx), hxv⟩)
      · exact .inr (.inr hv)
  · rw [State.record_of_lt hpassed.lt_furthest]
    refine ⟨⟨h.pos_le, h.furthest_le, hsound, h.justified, h.listed, .inr ?_⟩,
      Nat.le_of_lt hpassed.lt_furthest⟩
    exact ⟨hpassed.lt_furthest, hpassed.covers, fun v hv => hpassed.dead v (hM v hv)⟩

/-- Reading a token keeps the invariant. What was noted at the old position does not
start like the token, and behind the token only what prolongs it is lost. -/
theorem Tracks.advance (h : Tracks input L tokens M s pos) (hw : w ≠ [])
    (hrest : input.rest pos = w ++ r) (hK : ∃ v, v ∈ K) (hsound : ∀ v ∈ K, w ++ v ∈ M)
    (hcomplete : ∀ v, w ++ v ∈ M →
      v ∈ K ∨ ∃ c ∈ v.head?, Prolongs (input.before pos ++ w) c)
    (hsettled : ∀ c ∈ r.head?, ¬ Prolongs (input.before pos ++ w) c)
    (hpending : ∀ e : Expectation, e.Justified input L tokens pos → ∀ v, ¬ e.Opens (w ++ v)) :
    Tracks input L tokens K s (pos + w.length) := by
  have hlen : 0 < w.length := List.length_pos_iff.2 hw
  have hbefore := Input.before_add hrest
  refine ⟨Input.add_le_size h.pos_le hrest, h.furthest_le, ?_, h.justified, h.listed, ?_⟩
  · intro v hv
    rw [hbefore, List.append_assoc]
    exact h.sound _ (hsound v hv)
  · rcases h.complete with hopen | hpassed
    · -- everything noted so far lies in front of the new position
      have hle := hopen.furthest_le
      refine .inl ⟨by omega, ?_, fun v hv => ?_⟩
      · rw [Input.rest_add hrest, hbefore]
        exact hsettled
      · rw [hbefore] at hv ⊢
        rw [List.append_assoc] at hv
        rcases hopen.covers _ hv with hv | ⟨e, he, hev⟩ | ⟨c, hc, hprolongs⟩
        · exact (hcomplete v hv).imp_right .inr
        · unfold State.pendingAt at he
          split at he
          · next heq => exact (hpending e (heq ▸ h.justified e he) v hev).elim
          · simp at he
        · refine (hopen.settled c ?_ hprolongs).elim
          rw [hrest]
          rwa [List.head?_append_of_ne_nil _ hw] at hc ⊢
    · -- a continuation agrees with the token, so the failure lies behind it
      obtain ⟨v, hv⟩ := hK
      have hlt : pos + w.length < s.furthest := by
        by_contra hge
        refine hpassed.dead _ (hsound v hv) ?_
        rw [hrest, List.take_append_of_le_length (by omega)]
        exact (List.take_prefix _ w).trans (List.prefix_append w v)
      refine .inr ⟨hlt, hpassed.covers, fun v hv hprefix => hpassed.dead _ (hsound v hv) ?_⟩
      rw [Input.rest_add hrest] at hprefix
      have hsplit : s.furthest - pos = w.length + (s.furthest - (pos + w.length)) := by omega
      rw [hrest, hsplit, List.take_length_add_append]
      exact (List.prefix_append_right_inj w).2 hprefix

/-! ### Primitives -/

/-- The spaces and tabs that may follow a comma. -/
def gaps : Language Char :=
  {w | ∀ c ∈ w, isGap c = true}

theorem space_mem_gaps : [' '] ∈ gaps := by
  intro c hc
  rw [List.mem_singleton.1 hc]
  decide

/-- The numerals that can be read. -/
def numerals : Language Char :=
  {w | ∃ n, Text.IsNumeral w n}

theorem mem_word_mul : v ∈ ({w} * K : Language Char) ↔ ∃ u ∈ K, w ++ u = v := by
  rw [Language.mem_mul]
  constructor
  · rintro ⟨w', rfl, u, hu, rfl⟩
    exact ⟨u, hu, rfl⟩
  · rintro ⟨u, hu, rfl⟩
    exact ⟨w, rfl, u, hu, rfl⟩

theorem mem_comma_mul :
    v ∈ ({[',']} * (gaps * K) : Language Char) ↔ ∃ g ∈ gaps, ∃ u ∈ K, ',' :: (g ++ u) = v := by
  rw [mem_word_mul]
  constructor
  · rintro ⟨u, hu, rfl⟩
    obtain ⟨g, hg, k, hk, rfl⟩ := Language.mem_mul.1 hu
    exact ⟨g, hg, k, hk, rfl⟩
  · rintro ⟨g, hg, k, hk, rfl⟩
    exact ⟨g ++ k, Language.append_mem_mul hg hk, rfl⟩

/-- Behind the literal no token is prolonged. -/
def Closes (text : String) : Prop :=
  ∃ c, text.toList.getLast? = some c ∧ c.isDigit = false ∧ isGap c = false ∧ c ≠ ','

/-- What is noted rightly at a position does not start like a literal found there. -/
theorem Expectation.Justified.not_opens_literal {text : String}
    (he : e.Justified input L tokens pos) (hlex : Lexicon tokens) (ht : text ∈ tokens)
    (hfound : text.toList <+: input.rest pos) (v : List Char) :
    ¬ e.Opens (text.toList ++ v) := by
  obtain ⟨c, r, hc, hdigit⟩ := hlex.head text ht
  intro hopens
  cases e with
  | literal other =>
    have hother := he.known other rfl
    rcases List.prefix_or_prefix_of_prefix hopens (List.prefix_append _ v) with h | h
    · exact he.missed (h.trans hfound)
    · exact he.missed (hlex.distinct _ ht _ hother h ▸ hfound)
  | unsigned | shorterUnsigned =>
    obtain ⟨d, hd, hdd⟩ := hopens
    rw [hc, List.cons_append, List.head?_cons, Option.mem_some_iff] at hd
    rw [← hd, hdigit] at hdd
    exact absurd hdd (by decide)
  | endOfInput => simp [Opens, hc] at hopens
  | described => exact hopens

theorem Expectation.Justified.not_opens_numeral {n : Nat}
    (he : e.Justified input L tokens pos) (hlex : Lexicon tokens) (hw : Text.IsNumeral w n)
    (hfound : (input.rest pos).takeWhile Char.isDigit = w) (v : List Char) :
    ¬ e.Opens (w ++ v) := by
  intro hopens
  obtain ⟨c, r, rfl⟩ := List.exists_cons_of_ne_nil hw.ne_nil
  cases e with
  | literal other =>
    obtain ⟨c', r', hc', hdigit⟩ := hlex.head other (he.known other rfl)
    have hhead : c' = c := by
      rw [Opens, hc', List.cons_append, List.cons_prefix_cons] at hopens
      exact hopens.1
    rw [hhead, hw.isDigit c (by simp)] at hdigit
    exact absurd hdigit (by decide)
  | unsigned | shorterUnsigned =>
    rcases he.missed with h | h
    · rw [hfound] at h
      exact hw.ne_nil h
    · rw [hfound] at h
      exact Nat.not_lt.2 hw.length_le h
  | endOfInput => simp [Opens] at hopens
  | described => exact hopens

/-- Reading a literal, where `M` holds the alternatives to it. -/
theorem Tracks.literal {text : String} (hlex : Lexicon tokens) (ht : text ∈ tokens)
    (hcloses : Closes text) (hK : ∃ v, v ∈ K) (hM : ∀ v ∈ M, ¬ text.toList <+: v)
    (h : Tracks input L tokens ({text.toList} * K + M) s pos) :
    (Run.literal input text).Ensures s pos
      ⟨fun _ next s' => next = pos + text.toList.length ∧ text.toList <+: input.rest pos ∧
          Tracks input L tokens K s' next,
        fun s' => Tracks input L tokens M s' pos ∧ pos ≤ s'.furthest, fun _ => False, False⟩ := by
  have hmem : ∀ v ∈ K, text.toList ++ v ∈ ({text.toList} * K + M : Language Char) :=
    fun v hv => .inl (mem_word_mul.2 ⟨v, hv, rfl⟩)
  obtain ⟨k, hk⟩ := hK
  rw [Run.ensures_literal]
  split
  · next hfound =>
    obtain ⟨r, hr⟩ := hfound.2
    obtain ⟨c, hc, hdigit, hgap, hcomma⟩ := hcloses
    obtain ⟨u, hu⟩ := List.getLast?_eq_some_iff.1 hc
    refine ⟨rfl, hfound.2, h.advance (by simp [hu]) hr.symm ⟨k, hk⟩ hmem ?_ ?_ ?_⟩
    · rintro v (hv | hv)
      · obtain ⟨v', hv', heq⟩ := mem_word_mul.1 hv
        exact .inl (List.append_cancel_left heq ▸ hv')
      · exact (hM _ hv (List.prefix_append _ v)).elim
    · intro d _
      rw [hu, ← List.append_assoc]
      exact not_prolongs_of_last hdigit hgap hcomma d
    · exact fun e he => he.not_opens_literal hlex ht hfound.2
  · next hmissed =>
    refine h.record (fun v hv => .inr hv) ?_ ⟨?_, ⟨k, h.sound _ (hmem k hk)⟩, ?_⟩
    · rintro v (hv | hv)
      · obtain ⟨v', -, rfl⟩ := mem_word_mul.1 hv
        exact .inr (List.prefix_append _ v')
      · exact .inl hv
    · intro text' heq
      cases heq
      exact ht
    · exact fun hprefix => hmissed ⟨h.pos_le, hprefix⟩

/-- Reading a numeral, where `M` holds the alternatives to it. -/
theorem Tracks.unsigned (hlex : Lexicon tokens) (hK : ∃ v, v ∈ K)
    (hdigit : ∀ v ∈ K, ∀ c ∈ v.head?, c.isDigit = false)
    (hM : ∀ v ∈ M, ∀ c ∈ v.head?, c.isDigit = false)
    (h : Tracks input L tokens (numerals * K + M) s pos) :
    (Run.unsigned input).Ensures s pos
      ⟨fun _ next s' => pos < next ∧ Tracks input L tokens K s' next,
        fun s' => Tracks input L tokens M s' pos ∧ pos ≤ s'.furthest, fun _ => False, False⟩ := by
  obtain ⟨k, hk⟩ := hK
  have hstart : ∀ v ∈ numerals * K + M, v ∈ M ∨ ∃ c ∈ v.head?, c.isDigit = true := by
    rintro v (hv | hv)
    · obtain ⟨w, ⟨n, hw⟩, v', -, rfl⟩ := Language.mem_mul.1 hv
      obtain ⟨c, w', rfl⟩ := List.exists_cons_of_ne_nil hw.ne_nil
      exact .inr ⟨c, rfl, hw.isDigit c (by simp)⟩
    · exact .inl hv
  -- wherever a numeral is missing the digit zero could have stood
  have hnumeral : ['0'] ∈ numerals := ⟨0, Text.isNumeral_zero⟩
  have hzero : input.before pos ++ '0' :: k ∈ L :=
    h.sound _ (.inl (Language.append_mem_mul hnumeral hk))
  rw [Run.ensures_unsigned]
  dsimp only
  generalize hds : (input.rest pos).takeWhile Char.isDigit = ds
  split
  · next hnone =>
    exact h.record (fun v hv => .inr hv) hstart ⟨nofun, ⟨k, hzero⟩, .inl (hds.trans hnone)⟩
  · next hne =>
    split
    · next hlong =>
      exact h.record (fun v hv => .inr hv) hstart ⟨nofun, ⟨k, hzero⟩, .inr (hds ▸ hlong)⟩
    · next hshort =>
      obtain ⟨r, hr⟩ := List.takeWhile_prefix (l := input.rest pos) Char.isDigit
      rw [hds] at hr
      have hdigits : ∀ c ∈ ds, c.isDigit = true := mem_of_takeWhile_eq hds
      have hw : Text.IsNumeral ds (Text.digitsValue ds) := ⟨hne, by omega, hdigits, rfl⟩
      have hlen := List.length_pos_iff.2 hne
      refine ⟨by omega, h.advance hne hr.symm ⟨k, hk⟩ ?_ ?_ ?_ ?_⟩
      · exact fun v hv => .inl (Language.append_mem_mul ⟨_, hw⟩ hv)
      · -- another numeral with the same digits in front is longer
        rintro v (hv | hv)
        · obtain ⟨w, ⟨n, hw'⟩, v', hv', heq⟩ := Language.mem_mul.1 hv
          rcases eq_or_head_of_append_eq hdigits hw'.isDigit (hdigit v' hv') heq with
            rfl | ⟨c, hc, hcd⟩
          · exact .inl hv'
          · exact .inr ⟨c, hc, .inl ⟨endsInDigit_append hne hdigits, hcd⟩⟩
        · obtain ⟨c, ds', rfl⟩ := List.exists_cons_of_ne_nil hne
          have hc := hM _ hv c rfl
          rw [hdigits c (by simp)] at hc
          exact absurd hc (by decide)
      · intro c hc hprolongs
        have hcd := isDigit_of_prolongs hne hdigits hprolongs
        rw [← hr] at hds
        rw [head_of_takeWhile_eq hds c hc] at hcd
        exact absurd hcd (by decide)
      · exact fun e he => he.not_opens_numeral hlex hw hds

/-- Reading a comma and its gap, where `M` holds the alternatives. Those of them that
start with a comma, too, are taken for what follows a comma. -/
theorem Tracks.comma {ρ : Type → Type} {call : ∀ {α : Type}, ρ α → Run ν α}
    (hlex : Lexicon tokens) (ht : "," ∈ tokens) (hK : ∃ v, v ∈ K)
    (hgap : ∀ v ∈ K, ∀ c ∈ v.head?, isGap c = false)
    (hM : ∀ v ∈ M, v.head? = some ',' → v ∈ ({[',']} * (gaps * K) : Language Char))
    (h : Tracks input L tokens ({[',']} * (gaps * K) + M) s pos) :
    (Parser.comma.eval input call).Ensures s pos
      ⟨fun _ next s' => pos < next ∧ (input.rest pos).head? = some ',' ∧
          Tracks input L tokens K s' next,
        fun s' => Tracks input L tokens M s' pos ∧ pos ≤ s'.furthest, fun _ => False, False⟩ := by
  obtain ⟨k, hk⟩ := hK
  have hmem : ∀ g ∈ gaps, ∀ v ∈ K, ',' :: g ++ v ∈ ({[',']} * (gaps * K) + M : Language Char) :=
    fun g hg v hv => .inl (mem_comma_mul.2 ⟨g, hg, v, hv, rfl⟩)
  simp only [Parser.comma, Parser.thenBlanks, Parser.terminated, Parser.eval_map,
    Parser.eval_both, Parser.eval_literal, Parser.eval_blanks, Run.ensures_andThen,
    Run.ensures_blanks, Run.ensures_yield, Run.ensures_literal]
  split
  · next hfound =>
    obtain ⟨r, hr⟩ := hfound.2
    have hr : input.rest pos = ',' :: r := hr.symm
    have hnext : input.rest (pos + 1) = r := Input.rest_add (w := [',']) hr
    change pos < pos + 1 + _ ∧ _ ∧ Tracks input L tokens K s (pos + 1 + _)
    rw [show ",".toList.length = 1 from rfl, hnext]
    obtain ⟨r', hr'⟩ := List.takeWhile_prefix (l := r) isGap
    generalize hg : r.takeWhile isGap = g at hr' ⊢
    have hgaps : ∀ c ∈ g, isGap c = true := mem_of_takeWhile_eq hg
    -- the comma and its gap are one token, which the comma alone does not end
    have hrest : input.rest pos = (',' :: g) ++ r' := by rw [hr, ← hr', List.cons_append]
    have hlen : pos + 1 + g.length = pos + (',' :: g).length := by
      rw [List.length_cons]
      omega
    rw [hlen]
    refine ⟨by simp, by rw [hr]; rfl, h.advance (by simp) hrest ⟨k, hk⟩ (hmem g hgaps) ?_ ?_ ?_⟩
    · -- another gap that starts like this one is longer
      intro v hv
      obtain ⟨g', hg', v', hv', heq⟩ := mem_comma_mul.1 (hv.elim id fun hv => hM _ hv rfl)
      have heq : g' ++ v' = g ++ v := by simpa using heq
      rcases eq_or_head_of_append_eq hgaps hg' (hgap v' hv') heq with rfl | ⟨c, hc, hcg⟩
      · exact .inl hv'
      · exact .inr ⟨c, hc, .inr ⟨⟨_, g, rfl, hgaps⟩, hcg⟩⟩
    · intro c hc hprolongs
      have hcg := isGap_of_prolongs hgaps hprolongs
      rw [← hr'] at hg
      rw [head_of_takeWhile_eq hg c hc] at hcg
      exact absurd hcg (by decide)
    · intro e he v
      have := he.not_opens_literal hlex ht hfound.2 (g ++ v)
      exact this
  · next hmissed =>
    have hcomma := hmem [] (List.forall_mem_nil _) k hk
    refine h.record (fun v hv => .inr hv) ?_ ⟨?_, ⟨k, h.sound _ hcomma⟩, ?_⟩
    · rintro v (hv | hv)
      · obtain ⟨v', -, rfl⟩ := mem_word_mul.1 hv
        exact .inr (List.prefix_append _ v')
      · exact .inl hv
    · intro text heq
      cases heq
      exact ht
    · exact fun hprefix => hmissed ⟨h.pos_le, hprefix⟩

/-- Reading the end of the text, where nothing else may follow. -/
theorem Tracks.endOfInput (h : Tracks input L tokens 1 s pos) :
    (Run.endOfInput input).Ensures s pos
      ⟨fun _ _ s' => pos = input.text.size ∧ Tracks input L tokens 1 s' pos,
        fun s' => Stuck input L tokens s', fun _ => False, False⟩ := by
  rw [Run.ensures_endOfInput]
  split
  · next heq => exact ⟨heq, h⟩
  · next hne =>
    have hrecord := h.record (M := 0) (e := .endOfInput)
      (fun v hv => (Language.notMem_zero v hv).elim) (fun v hv => .inr hv)
      ⟨nofun, ?_, ?_⟩
    · exact hrecord.1.stuck hrecord.2
    · have := h.sound [] rfl
      rwa [List.append_nil] at this
    · intro hnil
      have := Input.rest_eq_nil_iff.1 hnil
      have := h.pos_le
      omega

end StreamTypes.Peg
