import StreamTypes.Proofs.Json.Compact

/-!
# Indented JSON

A value that is written on many lines is its text on one line with spaces and line breaks between
the parts. They are told from the characters of a string by whether a quote is open, so they can be
taken out again, and values with the same indented text are equal.

## Main definitions

- `Json.withoutLayout` — a text without the spaces and line breaks outside of its strings
- `Json.Collapses` — what is written as on one line, but for its layout

## Main statements

- `Json.withoutLayout_indented` — what is left of an indented text is the text on one line
- `Json.indented_injective` — values with the same indented text are equal
-/

namespace StreamTypes

namespace Json

variable {w x : List Char}

/-! ### Taking out the layout -/

/-- Where a character of a text stands. -/
inductive Place where
  | outside
  | inString
  /-- In a string, right behind a backslash. -/
  | behindSlash

/-- A text without the spaces and line breaks outside of its strings. -/
def withoutLayout : Place → List Char → List Char
  | _, [] => []
  | .outside, c :: cs =>
    if c = ' ' || c = '\n' then withoutLayout .outside cs
    else c :: withoutLayout (if c = '"' then .inString else .outside) cs
  | .inString, c :: cs =>
    c :: withoutLayout
      (if c = '"' then .outside else if c = '\\' then .behindSlash else .inString) cs
  | .behindSlash, c :: cs => c :: withoutLayout .inString cs

/-- The text holds no quotes, spaces and line breaks. -/
def Bare (w : List Char) : Prop :=
  ∀ c ∈ w, c ≠ ' ' ∧ c ≠ '\n' ∧ c ≠ '"'

theorem withoutLayout_bare (h : Bare w) (x : List Char) :
    withoutLayout .outside (w ++ x) = w ++ withoutLayout .outside x := by
  induction w with
  | nil => rfl
  | cons c w ih =>
    obtain ⟨hspace, hbreak, hquote⟩ := h c List.mem_cons_self
    simp [withoutLayout, hspace, hbreak, hquote, ih fun d hd => h d (List.mem_cons_of_mem c hd)]

theorem withoutLayout_newLine (level : Nat) (x : List Char) :
    withoutLayout .outside ((newLine level).toList ++ x) = withoutLayout .outside x := by
  have hspaces : ∀ n, withoutLayout .outside (List.replicate n ' ' ++ x) =
      withoutLayout .outside x := by
    intro n
    induction n with
    | zero => rfl
    | succ n ih => simpa [List.replicate_succ, withoutLayout] using ih
  simpa [newLine, withoutLayout] using hspaces (2 * level)

theorem Escape.withoutLayout {c : Char} (h : Escape c w) (x : List Char) :
    withoutLayout .inString (w ++ x) = w ++ withoutLayout .inString x := by
  cases h with
  | letter => simp [Json.withoutLayout]
  | code hplain => simp_all [Json.withoutLayout]
  | plain hquote hslash => simp [Json.withoutLayout, hquote, hslash]

theorem withoutLayout_literal (s : String) (x : List Char) :
    withoutLayout .outside ((literal s).toList ++ x) =
      (literal s).toList ++ withoutLayout .outside x := by
  have hchars : ∀ cs : List Char,
      withoutLayout .inString (cs.flatMap escapedChar ++ '"' :: x) =
        cs.flatMap escapedChar ++ '"' :: withoutLayout .outside x := by
    intro cs
    induction cs with
    | nil => simp [withoutLayout]
    | cons c cs ih =>
      rw [List.flatMap_cons, List.append_assoc, (escape_escapedChar c).withoutLayout, ih,
        List.append_assoc]
  simpa [toList_literal, withoutLayout] using hchars s.toList

theorem bare_repr (n : Nat) : Bare n.repr.toList := by
  intro c hc
  have hdigit := Text.isDigit_of_mem_repr hc
  refine ⟨?_, ?_, ?_⟩ <;> (rintro rfl; exact absurd hdigit (by decide))

theorem bare_num (n : Int) : Bare (toString n).toList := by
  cases n with
  | ofNat n => exact bare_repr n
  | negSucc n =>
    rw [toList_negSucc]
    exact List.forall_mem_cons.2 ⟨by decide, bare_repr (n + 1)⟩

/-! ### Rows -/

section Rows

variable {α : Type} {laidOut : Nat → α → List Char} {part : α → List Char}

/-- Without its layout the text of the part is the one on one line. -/
def Collapses (laidOut : Nat → α → List Char) (part : α → List Char) (a : α) : Prop :=
  ∀ level x, withoutLayout .outside (laidOut level a ++ x) = part a ++ withoutLayout .outside x

/-- The parts of a row after the first one, each behind a comma and on a line of its own. -/
def laterLines (laidOut : Nat → α → List Char) (level : Nat) (as : List α) : List Char :=
  as.flatMap fun a => ',' :: ((newLine level).toList ++ laidOut level a)

theorem withoutLayout_laterLines {as : List α} (h : ∀ a ∈ as, Collapses laidOut part a)
    (level : Nat) (x : List Char) :
    withoutLayout .outside (laterLines laidOut level as ++ x) =
      later part as ++ withoutLayout .outside x := by
  induction as with
  | nil => rfl
  | cons a as ih =>
    have ha := h a List.mem_cons_self level (laterLines laidOut level as ++ x)
    rw [ih fun c hc => h c (List.mem_cons_of_mem a hc)] at ha
    rw [later_cons, ← ha]
    simp [laterLines, withoutLayout, withoutLayout_newLine]

/-- A row on many lines, up to the bracket behind it. -/
theorem withoutLayout_row {a : α} {as : List α} (h : ∀ c ∈ a :: as, Collapses laidOut part c)
    (level : Nat) (x : List Char) :
    withoutLayout .outside ((newLine (level + 1)).toList ++ (laidOut (level + 1) a ++
      (laterLines laidOut (level + 1) as ++ ((newLine level).toList ++ x)))) =
      row part (a :: as) ++ withoutLayout .outside x := by
  obtain ⟨ha, has⟩ := List.forall_mem_cons.1 h
  rw [withoutLayout_newLine, ha, withoutLayout_laterLines has, withoutLayout_newLine, row,
    List.append_assoc]

end Rows

/-! ### Values -/

/-- The characters of a value inside some brackets. -/
def charsAt (level : Nat) (a : Json) : List Char :=
  (a.indentedAt level).toList

/-- The characters of a field inside some brackets. -/
def fieldCharsAt (level : Nat) (field : String × Json) : List Char :=
  (literal field.1).toList ++ ':' :: ' ' :: field.2.charsAt level

theorem toList_indentedItems (level : Nat) (items : List Json) :
    (indentedItems level items).toList = laterLines charsAt level items := by
  induction items with
  | nil => rfl
  | cons item items ih => simp [indentedItems, ih, laterLines, charsAt]

theorem toList_indentedFields (level : Nat) (fields : List (String × Json)) :
    (indentedFields level fields).toList = laterLines fieldCharsAt level fields := by
  induction fields with
  | nil => rfl
  | cons field fields ih => simp [indentedFields, ih, laterLines, fieldCharsAt, charsAt]

theorem collapses_field {field : String × Json} (h : Collapses charsAt chars field.2) :
    Collapses fieldCharsAt fieldChars field := by
  intro level x
  rw [fieldCharsAt, fieldChars, List.append_assoc, withoutLayout_literal, List.append_assoc]
  simp [withoutLayout, h level x]

theorem collapses_arr {items : List Json} (h : ∀ item ∈ items, Collapses charsAt chars item) :
    Collapses charsAt chars (arr items) := by
  intro level x
  cases items with
  | nil => simp [charsAt, indentedAt, chars_arr, row, withoutLayout]
  | cons item items =>
    have hrow := withoutLayout_row h level (']' :: x)
    simpa [charsAt, indentedAt, toList_indentedItems, chars_arr, withoutLayout] using hrow

theorem collapses_obj {fields : List (String × Json)}
    (h : ∀ field ∈ fields, Collapses fieldCharsAt fieldChars field) :
    Collapses charsAt chars (obj fields) := by
  intro level x
  cases fields with
  | nil => simp [charsAt, indentedAt, chars_obj, row, withoutLayout]
  | cons field fields =>
    have hrow := withoutLayout_row h level ('\x7d' :: x)
    simpa [charsAt, fieldCharsAt, indentedAt, toList_indentedFields, chars_obj, withoutLayout]
      using hrow

mutual

theorem collapses : ∀ a : Json, Collapses charsAt chars a
  | .null => fun _ _ => by
    rw [charsAt, chars, indentedAt, compact]
    exact withoutLayout_bare (by simp [Bare]) _
  | .num n => fun _ _ => by
    rw [charsAt, chars, indentedAt, compact]
    exact withoutLayout_bare (bare_num n) _
  | .str s => fun _ _ => by
    rw [charsAt, chars, indentedAt, compact]
    exact withoutLayout_literal s _
  | .arr items => collapses_arr (collapses_items items)
  | .obj fields => collapses_obj (collapses_fields fields)

theorem collapses_items : ∀ items : List Json, ∀ item ∈ items, Collapses charsAt chars item
  | [] => nofun
  | a :: items => List.forall_mem_cons.2 ⟨collapses a, collapses_items items⟩

theorem collapses_fields : ∀ fields : List (String × Json), ∀ field ∈ fields,
    Collapses fieldCharsAt fieldChars field
  | [] => nofun
  | (_, value) :: fields =>
    List.forall_mem_cons.2 ⟨collapses_field (collapses value), collapses_fields fields⟩

end

/-- Without its layout an indented text is the text on one line. -/
theorem withoutLayout_indented (a : Json) :
    withoutLayout .outside a.indented.toList = a.compact.toList := by
  have h := collapses a 0 []
  rw [List.append_nil, withoutLayout, List.append_nil] at h
  exact h

/-- Values with the same indented text are equal. -/
theorem indented_injective : Function.Injective indented := by
  intro a b h
  refine compact_injective (String.toList_inj.1 ?_)
  rw [← withoutLayout_indented a, ← withoutLayout_indented b, h]

/-- Spaces inside a string stay. -/
example : withoutLayout .outside (obj [("a b", arr [num 1, null])]).indented.toList =
    "\x7b\"a b\":[1,null]\x7d".toList := by
  decide

end Json

end StreamTypes
