import StreamTypes.Proofs.Dot.Unambiguous

/-!
# The tokens of a text

A reader that knows words, strings and single marks. Inside a string it pairs each backslash with
what stands behind it and looks for nothing but the first quote that is not paired, so brackets,
arrows and line ends inside of strings are never taken for others. A text that does not end with
a word is read in the same way whatever follows it, so the tokens of a long text are those of its
parts, one after another.

## Main definitions

- `Dot.Token` — the words, strings and marks of the language
- `Dot.readTokens` — the reader
- `Dot.Reads` — the tokens of a text, whatever follows it

## Main statements

- `Dot.reads_literal` — the reader finds every text that has been quoted
- `Dot.reads_of_readTokens` — texts without quotes that do not end with a word
- `Dot.Reads.append`, `Dot.Reads.name`, `Dot.Reads.unlines_cons` — texts made of parts
-/

namespace StreamTypes

open WideText (ofString)

namespace Dot

/-! ### The reader -/

/-- What a reader tells apart: words, strings without their quotes and escapes, and marks. -/
inductive Token where
  | word (text : WideText)
  | string (text : WideText)
  | mark (c : CodePoint)
  deriving DecidableEq, Repr

/-- A word that is a string of characters. -/
def Token.ofName (name : String) : Token :=
  .word (ofString name)

/-- The mark that is a character. -/
def Token.sign (c : Char) : Token :=
  .mark (.char c)

namespace Token

@[simp] theorem ofName_inj {a b : String} : ofName a = ofName b ↔ a = b := by
  rw [ofName, ofName, word.injEq, WideText.ofString_injective.eq_iff]

@[simp] theorem sign_inj {c d : Char} : sign c = sign d ↔ c = d := by
  rw [sign, sign, mark.injEq, CodePoint.char.injEq]

@[simp] theorem ofName_ne_sign (name : String) (c : Char) : ofName name ≠ sign c :=
  nofun

@[simp] theorem ofName_ne_string (name : String) (text : WideText) : ofName name ≠ .string text :=
  nofun

@[simp] theorem string_ne_sign (text : WideText) (c : Char) : .string text ≠ sign c :=
  nofun

end Token

/-- What only separates tokens. -/
def isBlank (c : CodePoint) : Bool :=
  c = .char ' ' || c = .char '\n'

/-- What is a token by itself. -/
def isMark (c : CodePoint) : Bool :=
  [.char '\x7b', .char '\x7d', .char '[', .char ']', .char '=', .char ',', .char ';'].contains c

/-- What words are made of. -/
def isWordPart (c : CodePoint) : Bool :=
  c ≠ .char '"' && !isBlank c && !isMark c

theorem length_lt_of_readString {behindSlash : Bool} {t s rest : WideText}
    (h : readString behindSlash t = some (s, rest)) : rest.length < t.length := by
  induction t generalizing behindSlash s with
  | nil => cases h
  | cons c t ih =>
    rw [readString] at h
    split_ifs at h with hslash hquote hescape
    · obtain ⟨⟨s', behind⟩, hread, heq⟩ := Option.map_eq_some_iff.1 h
      cases heq
      exact Nat.lt_succ_of_lt (ih hread)
    · cases h
      exact Nat.lt_succ_self _
    · exact Nat.lt_succ_of_lt (ih h)
    · obtain ⟨⟨s', behind⟩, hread, heq⟩ := Option.map_eq_some_iff.1 h
      cases heq
      exact Nat.lt_succ_of_lt (ih hread)

/-- The tokens of a text, unless it ends inside a string. -/
def readTokens : WideText → Option (List Token)
  | [] => some []
  | c :: rest =>
    if c = .char '"' then
      match _hread : readString false rest with
      | none => none
      | some (string, behind) => (readTokens behind).map (.string string :: ·)
    else if isBlank c then readTokens rest
    else if isMark c then (readTokens rest).map (.mark c :: ·)
    else
      (readTokens (rest.dropWhile isWordPart)).map (.word (c :: rest.takeWhile isWordPart) :: ·)
termination_by text => text.length
decreasing_by
  · exact Nat.lt_succ_of_lt (length_lt_of_readString _hread)
  · exact Nat.lt_succ_self _
  · exact Nat.lt_succ_self _
  · exact Nat.lt_succ_of_le (List.dropWhile_sublist _).length_le

/-! ### Reading the parts of a text -/

/-- A text stands for some tokens, whatever follows it. -/
def Reads (text : WideText) (tokens : List Token) : Prop :=
  ∀ rest, readTokens (text ++ rest) = (readTokens rest).map (tokens ++ ·)

theorem Reads.append {s t : WideText} {xs ys : List Token} (hs : Reads s xs) (ht : Reads t ys) :
    Reads (s ++ t) (xs ++ ys) := by
  intro rest
  rw [List.append_assoc, hs, ht, Option.map_map]
  congr 1
  funext zs
  exact (List.append_assoc xs ys zs).symm

theorem reads_nil : Reads [] [] := by
  intro rest
  simp

theorem reads_literal (t : WideText) : Reads (literal t) [.string t] := by
  intro rest
  have hstring : readString false (t.flatMap escapedPoint ++ .char '"' :: rest) = some (t, rest) :=
    readString_escaped t rest
  simp only [literal, List.cons_append, List.append_assoc, List.nil_append]
  rw [readTokens, if_pos rfl]
  split
  case h_1 hnone => simp [hstring] at hnone
  case h_2 string behind hread =>
    rw [hstring] at hread
    cases hread
    rfl

theorem reads_pad (level : Nat) : Reads (pad level) [] := by
  intro rest
  rw [pad]
  induction 2 * level with
  | zero => simp
  | succ n ih =>
    rw [List.replicate_succ, List.cons_append, readTokens, if_neg (by decide), if_pos (by decide)]
    exact ih

theorem isWordPart_iff {c : CodePoint} :
    isWordPart c = true ↔ c ≠ .char '"' ∧ isBlank c = false ∧ isMark c = false := by
  simp [isWordPart, and_assoc]

theorem Reads.blank {c : CodePoint} {t : WideText} {tokens : List Token} (h : Reads t tokens)
    (hquote : c ≠ .char '"') (hc : isBlank c = true) : Reads (c :: t) tokens := by
  intro rest
  rw [List.cons_append, readTokens, if_neg hquote, if_pos hc]
  exact h rest

theorem Reads.mark {c : CodePoint} {t : WideText} {tokens : List Token} (h : Reads t tokens)
    (hquote : c ≠ .char '"') (hblank : isBlank c = false) (hc : isMark c = true) :
    Reads (c :: t) (.mark c :: tokens) := by
  intro rest
  rw [List.cons_append, readTokens, if_neg hquote, hblank, if_neg Bool.false_ne_true, if_pos hc, h,
    Option.map_map]
  rfl

/-- A word goes as far as nothing else follows it. -/
theorem Reads.word {w t : WideText} {tokens : List Token} (h : Reads t tokens) (hw : w ≠ [])
    (hparts : ∀ c ∈ w, isWordPart c = true)
    (hend : t.head?.any (fun c => !isWordPart c) = true) : Reads (w ++ t) (.word w :: tokens) := by
  intro rest
  obtain ⟨d, w, rfl⟩ := List.exists_cons_of_ne_nil hw
  obtain ⟨c, t, rfl⟩ : ∃ c t', t = c :: t' := by
    cases t with
    | nil => cases hend
    | cons c t => exact ⟨c, t, rfl⟩
  have hc : isWordPart c = false := by simpa using hend
  obtain ⟨hquote, hblank, hmark⟩ := isWordPart_iff.1 (hparts d (by simp))
  have htail : ∀ e ∈ w, isWordPart e = true := fun e he => hparts e (by simp [he])
  have htake : (w ++ c :: (t ++ rest)).takeWhile isWordPart = w := by
    rw [List.takeWhile_append_of_pos htail]
    simp [hc]
  have hdrop : (w ++ c :: (t ++ rest)).dropWhile isWordPart = c :: (t ++ rest) := by
    rw [List.dropWhile_append_of_pos htail]
    simp [hc]
  have hrest := h rest
  rw [List.cons_append] at hrest
  rw [List.append_assoc, List.cons_append, List.cons_append, readTokens, if_neg hquote, hblank,
    hmark, if_neg Bool.false_ne_true, if_neg Bool.false_ne_true, htake, hdrop, hrest,
    Option.map_map]
  rfl

/-- A text without quotes that does not end with a word is read in the same way whatever
follows it. -/
theorem reads_of_readTokens {text : WideText} {tokens : List Token}
    (h : readTokens text = some tokens) (hquote : .char '"' ∉ text := by decide)
    (hend : text.getLast?.any isWordPart = false := by decide) : Reads text tokens := by
  have hlast : ∀ {c : CodePoint} {rest : WideText},
      (c :: rest).getLast?.any isWordPart = false → rest.getLast?.any isWordPart = false := by
    intro c rest hrest
    cases rest with
    | nil => rfl
    | cons d rest => rwa [List.getLast?_cons_cons] at hrest
  fun_induction readTokens text generalizing tokens with
  | case1 =>
    cases h
    exact reads_nil
  | case2 | case3 => exact absurd (List.mem_cons_self ..) hquote
  | case4 c rest hc hblank ih =>
    exact (ih h (fun hmem => hquote (List.mem_cons_of_mem _ hmem)) (hlast hend)).blank hc hblank
  | case5 c rest hc hblank hmark ih =>
    obtain ⟨tokens, htokens, rfl⟩ := Option.map_eq_some_iff.1 h
    have hrest := ih htokens (fun hmem => hquote (List.mem_cons_of_mem _ hmem)) (hlast hend)
    exact hrest.mark hc (Bool.eq_false_iff.2 hblank) hmark
  | case6 c rest hc hblank hmark ih =>
    obtain ⟨tokens, htokens, rfl⟩ := Option.map_eq_some_iff.1 h
    have hparts : ∀ d ∈ c :: rest.takeWhile isWordPart, isWordPart d = true := by
      intro d hd
      rcases List.mem_cons.1 hd with rfl | hd
      · exact isWordPart_iff.2 ⟨hc, Bool.eq_false_iff.2 hblank, Bool.eq_false_iff.2 hmark⟩
      · exact List.all_eq_true.1 List.all_takeWhile d hd
    have hsplit : c :: rest = c :: rest.takeWhile isWordPart ++ rest.dropWhile isWordPart := by
      rw [List.cons_append, List.takeWhile_append_dropWhile]
    -- the last of the text is no part of the word, so the word ends inside the text
    have hne : rest.dropWhile isWordPart ≠ [] := by
      intro hnil
      rw [hsplit, hnil, List.append_nil, List.getLast?_eq_some_getLast (List.cons_ne_nil _ _),
        Option.any_some, hparts _ (List.getLast_mem _)] at hend
      cases hend
    rw [hsplit, List.getLast?_append_of_ne_nil _ hne] at hend
    have hbehind := ih htokens
      (fun hmem => hquote (List.mem_cons_of_mem _ ((List.dropWhile_sublist _).subset hmem))) hend
    rw [hsplit]
    refine hbehind.word (List.cons_ne_nil _ _) hparts ?_
    obtain ⟨d, behind, hcons⟩ := List.exists_cons_of_ne_nil hne
    have hd : isWordPart d = false := by
      have hfirst := List.head?_dropWhile_not isWordPart rest
      rw [hcons] at hfirst
      simpa using hfirst
    simp [hcons, hd]

theorem isWordPart_of_isDigit {c : Char} (h : c.isDigit = true) : isWordPart (.char c) = true := by
  have hne : ∀ d : Char, d.isDigit = false → c ≠ d := by
    rintro d hd rfl
    simp [h] at hd
  simp [isWordPart, isBlank, isMark, hne]

/-- A name is a word if its letters are parts of words. -/
theorem Reads.name {letters : List Char} {name : String} {t : WideText} {tokens : List Token}
    (h : Reads t tokens) (hname : IsName letters name)
    (hend : t.head?.any (fun c => !isWordPart c) = true) (hne : letters ≠ [] := by decide)
    (hparts : (letters.all fun c => isWordPart (.char c)) = true := by decide) :
    Reads (ofString name ++ t) (.ofName name :: tokens) := by
  obtain ⟨digits, hdigits, hlist⟩ := hname
  refine h.word ?_ ?_ hend
  · simp [ofString, WideText.ofChars, hlist, hne]
  · intro c hc
    simp only [ofString, WideText.ofChars, hlist, List.mem_map, List.mem_append] at hc
    obtain ⟨c, hc | hc, rfl⟩ := hc
    · exact List.all_eq_true.1 hparts c hc
    · exact isWordPart_of_isDigit (hdigits c hc)

theorem reads_unlines_nil : Reads (unlines []) [] :=
  reads_nil

theorem Reads.unlines_cons {line : WideText} {lines : List WideText} {xs ys : List Token}
    (hline : Reads line xs) (hlines : Reads (unlines lines) ys) :
    Reads (unlines (line :: lines)) (xs ++ ys) := by
  rw [Dot.unlines_cons]
  exact hline.append (hlines.blank (by decide) (by decide))

end Dot

end StreamTypes
