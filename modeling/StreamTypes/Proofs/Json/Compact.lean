import StreamTypes.Json
import StreamTypes.Proofs.Text.Unsigned

/-!
# Reading a JSON value back from its text

The text of a value on one line determines the value, whatever its size. The first character tells
which shape it has. A string ends at the first quote that no backslash belongs to, a number
ends where there are no more digits, and commas and brackets stand between all other parts; so a
value is read off any text that begins with it, as long as no digit follows.

## Main definitions

- `Json.readChar` — a reader of the characters in strings
- `Json.EndsNumber` — texts in front of which a number ends
- `Json.ReadOff` — what is found again wherever a text begins with it
- `Json.row` — what stands between two brackets
- `Json.Shape` — the shapes of values, told apart by their first characters

## Main statements

- `Json.literal_append_inj`, `Json.num_append_inj` — strings and numbers are read back
- `Json.row_append_inj` — so is a row, if its parts are
- `Json.readOff` — so is every value, and what follows it
- `Json.compact_injective` — values with the same text are equal
-/

namespace StreamTypes

namespace Json

variable {x y : List Char}

/-! ### Strings -/

/-- The character that a letter behind a backslash stands for. -/
def unescaped (letter : Char) : Char :=
  if letter = 'n' then '\n'
  else if letter = 'r' then '\r'
  else if letter = 't' then '\t'
  else if letter = 'b' then '\x08'
  else if letter = 'f' then '\x0c'
  else letter

/-- The first character in the text of a string, and what follows it. -/
def readChar : List Char → Option (Char × List Char)
  | '\\' :: 'u' :: a :: b :: c :: d :: rest =>
    some (Char.ofNat (Text.hexValue [a, b, c, d]), rest)
  | '\\' :: letter :: rest => some (unescaped letter, rest)
  | c :: rest => some (c, rest)
  | [] => none

/-- The ways in which a character is written in a string: by a letter, by its code, or as it is. -/
inductive Escape (c : Char) : List Char → Prop
  | letter {letter : Char} : letter ≠ 'u' → unescaped letter = c → Escape c ['\\', letter]
  | code {p q r s : Char} : (∀ d ∈ [p, q, r, s], d ≠ '"' ∧ d ≠ '\\') →
      Char.ofNat (Text.hexValue [p, q, r, s]) = c → Escape c ['\\', 'u', p, q, r, s]
  | plain : c ≠ '"' → c ≠ '\\' → Escape c [c]

/-- The digits of a control character have its code as their value. -/
theorem exists_digits_of_control {n : Nat} (h : n < 0x20) : ∃ p q r s : Char,
    List.replicate (4 - (Nat.toDigits 16 n).length) '0' ++ Nat.toDigits 16 n = [p, q, r, s] ∧
      (∀ d ∈ [p, q, r, s], d ≠ '"' ∧ d ≠ '\\') ∧ Text.hexValue [p, q, r, s] = n := by
  have hdigits : ∀ n < 0x20, ∀ digits,
      List.replicate (4 - (Nat.toDigits 16 n).length) '0' ++ Nat.toDigits 16 n = digits →
        digits.length = 4 ∧ (digits.all fun d => d ≠ '"' ∧ d ≠ '\\') = true ∧
          Text.hexValue digits = n := by
    simp only [forall_eq']
    decide
  obtain ⟨hlength, hplain, hvalue⟩ := hdigits n h _ rfl
  obtain ⟨p, q, r, s, hfour⟩ := List.length_eq_four.1 hlength
  rw [hfour] at hplain hvalue
  exact ⟨p, q, r, s, hfour, by simpa using hplain, hvalue⟩

theorem escape_escapedChar (c : Char) : Escape c (escapedChar c) := by
  by_cases hletter : c ∈ ['"', '\\', '\n', '\r', '\t', '\x08', '\x0c']
  · simp only [List.mem_cons, List.not_mem_nil, or_false] at hletter
    rcases hletter with rfl | rfl | rfl | rfl | rfl | rfl | rfl <;>
      exact .letter (by decide) (by decide)
  · simp only [List.mem_cons, List.not_mem_nil, or_false, not_or] at hletter
    obtain ⟨hquote, hslash, hothers⟩ := hletter
    by_cases hcontrol : c.toNat < 0x20
    · obtain ⟨p, q, r, s, hdigits, hplain, hvalue⟩ := exists_digits_of_control hcontrol
      have hcode : escapedChar c = ['\\', 'u', p, q, r, s] := by
        simp [escapedChar, hquote, hslash, hothers, hcontrol, hdigits]
      rw [hcode]
      exact .code hplain (by rw [hvalue, Char.ofNat_toNat])
    · have hplain : escapedChar c = [c] := by
        simp [escapedChar, hquote, hslash, hothers, hcontrol]
      rw [hplain]
      exact .plain hquote hslash

/-- The reader finds every character that has been written, whatever follows. -/
theorem Escape.readChar {c : Char} {w : List Char} (h : Escape c w) (x : List Char) :
    readChar (w ++ x) = some (c, x) := by
  cases h with
  | letter hne heq => simp [Json.readChar, hne, heq]
  | code _ heq => rw [← heq]; rfl
  | plain _ hslash => simp [Json.readChar, hslash]

theorem Escape.ne_quote {c : Char} {w : List Char} (h : Escape c w) (x y : List Char) :
    w ++ x ≠ '"' :: y := by
  cases h with
  | plain hquote _ => simp [hquote]
  | letter | code => simp

theorem escaped_append_inj {s t : List Char}
    (h : s.flatMap escapedChar ++ '"' :: x = t.flatMap escapedChar ++ '"' :: y) :
    s = t ∧ x = y := by
  induction s generalizing t with
  | nil =>
    cases t with
    | nil => exact ⟨rfl, (List.cons.inj h).2⟩
    | cons d t =>
      rw [List.flatMap_cons, List.append_assoc] at h
      exact absurd h.symm ((escape_escapedChar d).ne_quote _ _)
  | cons c s ih =>
    rw [List.flatMap_cons, List.append_assoc] at h
    cases t with
    | nil => exact absurd h ((escape_escapedChar c).ne_quote _ _)
    | cons d t =>
      rw [List.flatMap_cons, List.append_assoc] at h
      have hread := congrArg Json.readChar h
      rw [(escape_escapedChar c).readChar, (escape_escapedChar d).readChar, Option.some.injEq,
        Prod.mk.injEq] at hread
      obtain ⟨rfl, hrest⟩ := hread
      obtain ⟨rfl, hx⟩ := ih hrest
      exact ⟨rfl, hx⟩

theorem toList_literal (s : String) :
    (literal s).toList = '"' :: (s.toList.flatMap escapedChar ++ ['"']) := by
  rw [literal, String.toList_ofList, List.cons_append]

/-- A string is read off any text that begins with it. -/
theorem literal_append_inj {s t : String}
    (h : (literal s).toList ++ x = (literal t).toList ++ y) : s = t ∧ x = y := by
  simp only [toList_literal, List.cons_append, List.append_assoc, List.nil_append,
    List.cons.injEq, true_and] at h
  obtain ⟨hchars, hrest⟩ := escaped_append_inj h
  exact ⟨String.toList_inj.1 hchars, hrest⟩

/-! ### Numbers -/

/-- A number in front of the text ends there. -/
def EndsNumber (x : List Char) : Prop :=
  ∀ c ∈ x.head?, c.isDigit = false

theorem endsNumber_nil : EndsNumber [] :=
  nofun

theorem endsNumber_cons {c : Char} (h : c.isDigit = false) : EndsNumber (c :: x) := by
  rintro _ ⟨⟩
  exact h

theorem repr_append_inj {m n : Nat} (hx : EndsNumber x) (hy : EndsNumber y)
    (h : m.repr.toList ++ x = n.repr.toList ++ y) : m = n ∧ x = y := by
  have hdigits : ∀ (k : Nat) {z : List Char}, EndsNumber z →
      (k.repr.toList ++ z).takeWhile Char.isDigit = k.repr.toList := by
    intro k z hz
    rw [List.takeWhile_append_of_pos fun c hc => Text.isDigit_of_mem_repr hc]
    cases z with
    | nil => simp
    | cons c z => simp [hz c rfl]
  have hrepr := congrArg (List.takeWhile Char.isDigit) h
  rw [hdigits m hx, hdigits n hy] at hrepr
  rw [hrepr] at h
  exact ⟨Text.repr_injective (String.toList_inj.1 hrepr), List.append_cancel_left h⟩

/-- The first character of a number without a sign. -/
theorem head_repr (n : Nat) : ∃ c w, n.repr.toList = c :: w ∧ c.isDigit = true := by
  cases hdigits : n.repr.toList with
  | nil =>
    rw [Nat.toList_repr] at hdigits
    exact absurd hdigits Nat.toDigits_ne_nil
  | cons c w => exact ⟨c, w, rfl, Text.isDigit_of_mem_repr (hdigits ▸ List.mem_cons_self)⟩

theorem repr_append_ne_minus (n : Nat) (x y : List Char) : n.repr.toList ++ x ≠ '-' :: y := by
  obtain ⟨c, w, hrepr, hdigit⟩ := head_repr n
  rw [hrepr]
  rintro ⟨⟩
  exact absurd hdigit (by decide)

theorem toList_negSucc (n : Nat) :
    (toString (Int.negSucc n)).toList = '-' :: (n + 1).repr.toList := by
  change ("-" ++ (n + 1).repr).toList = _
  rw [String.toList_append]
  rfl

/-- A number is read off any text that begins with it and goes on without a digit. -/
theorem num_append_inj {m n : Int} (hx : EndsNumber x) (hy : EndsNumber y)
    (h : (toString m).toList ++ x = (toString n).toList ++ y) : m = n ∧ x = y := by
  cases m with
  | ofNat m =>
    cases n with
    | ofNat n =>
      obtain ⟨rfl, hrest⟩ := repr_append_inj hx hy h
      exact ⟨rfl, hrest⟩
    | negSucc n =>
      rw [toList_negSucc] at h
      exact absurd h (repr_append_ne_minus m _ _)
  | negSucc m =>
    rw [toList_negSucc] at h
    cases n with
    | ofNat n => exact absurd h.symm (repr_append_ne_minus n _ _)
    | negSucc n =>
      rw [toList_negSucc] at h
      obtain ⟨hsucc, hrest⟩ := repr_append_inj hx hy (List.cons.inj h).2
      exact ⟨congrArg Int.negSucc (Nat.succ.inj hsucc), hrest⟩

/-! ### Rows -/

section Rows

variable {α : Type} {part : α → List Char} {close : Char} {as bs : List α}

/-- A part is found again in any text that begins with it and goes on without a digit. -/
def ReadOff (part : α → List Char) (a : α) : Prop :=
  ∀ {b : α} {x y : List Char}, EndsNumber x → EndsNumber y →
    part a ++ x = part b ++ y → a = b ∧ x = y

/-- The parts of a row after the first one, each behind a comma. -/
def later (part : α → List Char) (as : List α) : List Char :=
  as.flatMap fun a => ',' :: part a

/-- The parts of a row, with commas between them. -/
def row (part : α → List Char) : List α → List Char
  | [] => []
  | a :: as => part a ++ later part as

/-- A bracket ends a row: it is no digit and no comma, and no part begins with it. -/
structure Closes (close : Char) (part : α → List Char) : Prop where
  isDigit_eq : close.isDigit = false
  ne_comma : close ≠ ','
  ne_part : ∀ a x y, part a ++ x ≠ close :: y

theorem later_cons (part : α → List Char) (a : α) (as : List α) (x : List Char) :
    later part (a :: as) ++ x = ',' :: (part a ++ (later part as ++ x)) := by
  simp [later]

theorem Closes.endsNumber_later (hclose : Closes close part) (as : List α) (x : List Char) :
    EndsNumber (later part as ++ close :: x) := by
  cases as with
  | nil => exact endsNumber_cons hclose.isDigit_eq
  | cons a as =>
    rw [later_cons]
    exact endsNumber_cons (by decide)

/-- Behind the first part a row is read up to its bracket. -/
theorem later_append_inj (hclose : Closes close part) (has : ∀ a ∈ as, ReadOff part a)
    (h : later part as ++ close :: x = later part bs ++ close :: y) : as = bs ∧ x = y := by
  induction as generalizing bs with
  | nil =>
    cases bs with
    | nil => exact ⟨rfl, (List.cons.inj h).2⟩
    | cons b bs =>
      rw [later_cons] at h
      exact absurd (List.cons.inj h).1 hclose.ne_comma
  | cons a as ih =>
    rw [later_cons] at h
    cases bs with
    | nil => exact absurd (List.cons.inj h).1.symm hclose.ne_comma
    | cons b bs =>
      rw [later_cons] at h
      obtain ⟨rfl, hlater⟩ := has a List.mem_cons_self (hclose.endsNumber_later as x)
        (hclose.endsNumber_later bs y) (List.cons.inj h).2
      obtain ⟨rfl, hrest⟩ := ih (fun c hc => has c (List.mem_cons_of_mem a hc)) hlater
      exact ⟨rfl, hrest⟩

/-- A row is read up to its bracket. -/
theorem row_append_inj (hclose : Closes close part) (has : ∀ a ∈ as, ReadOff part a)
    (h : row part as ++ close :: x = row part bs ++ close :: y) : as = bs ∧ x = y := by
  cases as with
  | nil =>
    cases bs with
    | nil => exact ⟨rfl, (List.cons.inj h).2⟩
    | cons b bs =>
      rw [row, row, List.append_assoc] at h
      exact absurd h.symm (hclose.ne_part b _ _)
  | cons a as =>
    rw [row, List.append_assoc] at h
    cases bs with
    | nil => exact absurd h (hclose.ne_part a _ _)
    | cons b bs =>
      rw [row, List.append_assoc] at h
      refine later_append_inj hclose has ?_
      rw [later_cons, later_cons, h]

end Rows

/-! ### Values -/

/-- The characters of a value on one line. -/
def chars (a : Json) : List Char :=
  a.compact.toList

/-- The characters of a field on one line. -/
def fieldChars (field : String × Json) : List Char :=
  (literal field.1).toList ++ ':' :: field.2.chars

/-- The shapes of values, and of characters that no value begins with. -/
inductive Shape where
  | null
  | num
  | str
  | arr
  | obj
  | none
  deriving DecidableEq

/-- The shape of a value. -/
def shape : Json → Shape
  | .null => .null
  | .num _ => .num
  | .str _ => .str
  | .arr _ => .arr
  | .obj _ => .obj

/-- The shape of the values that begin with a character. -/
def shapeOf (c : Char) : Shape :=
  if c.isDigit || c = '-' then .num
  else if c = 'n' then .null
  else if c = '"' then .str
  else if c = '[' then .arr
  else if c = '\x7b' then .obj
  else .none

theorem toList_compactItems (items : List Json) :
    (compactItems items).toList = row chars items := by
  cases items with
  | nil => rfl
  | cons item items =>
    induction items generalizing item with
    | nil => simp [compactItems, row, later, chars]
    | cons next items ih => simp [compactItems, ih, row, later, chars]

theorem toList_compactFields (fields : List (String × Json)) :
    (compactFields fields).toList = row fieldChars fields := by
  cases fields with
  | nil => rfl
  | cons field fields =>
    induction fields generalizing field with
    | nil => simp [compactFields, row, later, fieldChars, chars]
    | cons next fields ih => simp [compactFields, ih, row, later, fieldChars, chars]

theorem chars_arr (items : List Json) : (arr items).chars = '[' :: (row chars items ++ [']']) := by
  simp [chars, compact, toList_compactItems]

theorem chars_obj (fields : List (String × Json)) :
    (obj fields).chars = '\x7b' :: (row fieldChars fields ++ ['\x7d']) := by
  simp [chars, compact, toList_compactFields]

/-- The first character of a value tells its shape. -/
theorem head_chars (a : Json) : ∃ c w, a.chars = c :: w ∧ shapeOf c = a.shape := by
  cases a with
  | null => exact ⟨'n', _, rfl, rfl⟩
  | num n =>
    cases n with
    | ofNat n =>
      obtain ⟨c, w, hrepr, hdigit⟩ := head_repr n
      exact ⟨c, w, hrepr, by simp [shapeOf, hdigit, shape]⟩
    | negSucc n => exact ⟨'-', _, toList_negSucc n, rfl⟩
  | str s => exact ⟨'"', _, toList_literal s, rfl⟩
  | arr items => exact ⟨'[', _, chars_arr items, rfl⟩
  | obj fields => exact ⟨'\x7b', _, chars_obj fields, rfl⟩

theorem shape_eq {a b : Json} (h : a.chars ++ x = b.chars ++ y) : a.shape = b.shape := by
  obtain ⟨c, w, ha, hc⟩ := head_chars a
  obtain ⟨d, v, hb, hd⟩ := head_chars b
  rw [ha, hb, List.cons_append, List.cons_append, List.cons.injEq] at h
  rw [← hc, ← hd, h.1]

theorem closes_items : Closes ']' chars where
  isDigit_eq := by decide
  ne_comma := by decide
  ne_part a x y := by
    obtain ⟨d, w, ha, hd⟩ := head_chars a
    rw [ha]
    rintro ⟨⟩
    -- No value begins with a bracket that closes.
    cases a <;> cases hd

theorem closes_fields : Closes '\x7d' fieldChars where
  isDigit_eq := by decide
  ne_comma := by decide
  ne_part field x y := by
    rw [fieldChars, toList_literal]
    simp

theorem readOff_null : ReadOff chars null := by
  intro b x y _ _ h
  cases b with
  | null => exact ⟨rfl, List.append_cancel_left h⟩
  | _ => cases shape_eq h

theorem readOff_num (n : Int) : ReadOff chars (num n) := by
  intro b x y hx hy h
  cases b with
  | num =>
    obtain ⟨rfl, hrest⟩ := num_append_inj hx hy h
    exact ⟨rfl, hrest⟩
  | _ => cases shape_eq h

theorem readOff_str (s : String) : ReadOff chars (str s) := by
  intro b x y _ _ h
  cases b with
  | str =>
    obtain ⟨rfl, hrest⟩ := literal_append_inj h
    exact ⟨rfl, hrest⟩
  | _ => cases shape_eq h

theorem readOff_arr {items : List Json} (hitems : ∀ item ∈ items, ReadOff chars item) :
    ReadOff chars (arr items) := by
  intro b x y _ _ h
  cases b with
  | arr items' =>
    rw [chars_arr, chars_arr, List.cons_append, List.cons_append, List.append_assoc,
      List.append_assoc] at h
    obtain ⟨rfl, hrest⟩ := row_append_inj closes_items hitems (List.cons.inj h).2
    exact ⟨rfl, hrest⟩
  | _ => cases shape_eq h

theorem readOff_field {field : String × Json} (hvalue : ReadOff chars field.2) :
    ReadOff fieldChars field := by
  intro field' x y hx hy h
  rw [fieldChars, fieldChars, List.append_assoc, List.append_assoc] at h
  obtain ⟨hkey, hrest⟩ := literal_append_inj h
  obtain ⟨heq, hrest⟩ := hvalue hx hy (List.cons.inj hrest).2
  exact ⟨Prod.ext hkey heq, hrest⟩

theorem readOff_obj {fields : List (String × Json)}
    (hfields : ∀ field ∈ fields, ReadOff fieldChars field) : ReadOff chars (obj fields) := by
  intro b x y _ _ h
  cases b with
  | obj fields' =>
    rw [chars_obj, chars_obj, List.cons_append, List.cons_append, List.append_assoc,
      List.append_assoc] at h
    obtain ⟨rfl, hrest⟩ := row_append_inj closes_fields hfields (List.cons.inj h).2
    exact ⟨rfl, hrest⟩
  | _ => cases shape_eq h

mutual

/-- A value is found again in any text that begins with it and goes on without a digit. -/
theorem readOff : ∀ a : Json, ReadOff chars a
  | .null => readOff_null
  | .num n => readOff_num n
  | .str s => readOff_str s
  | .arr items => readOff_arr (readOff_items items)
  | .obj fields => readOff_obj (readOff_fields fields)

theorem readOff_items : ∀ items : List Json, ∀ item ∈ items, ReadOff chars item
  | [] => nofun
  | a :: items => List.forall_mem_cons.2 ⟨readOff a, readOff_items items⟩

theorem readOff_fields : ∀ fields : List (String × Json), ∀ field ∈ fields,
    ReadOff fieldChars field
  | [] => nofun
  | (_, value) :: fields =>
    List.forall_mem_cons.2 ⟨readOff_field (readOff value), readOff_fields fields⟩

end

/-- Values with the same text on one line are equal. -/
theorem compact_injective : Function.Injective compact := by
  intro a b h
  exact (readOff a endsNumber_nil endsNumber_nil
    (congrArg (fun text => text.toList ++ []) h)).1

end Json

end StreamTypes
