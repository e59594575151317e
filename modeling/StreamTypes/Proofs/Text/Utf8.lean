import Mathlib.Data.List.Basic
import Mathlib.Data.List.TakeWhile
import StreamTypes.Text.Utf8

/-!
# Bytes that are texts

Decoding is the inverse of encoding: the rows of bytes that have a text are those that encode
one. This is shown one character at a time, since its first byte tells what may follow it.

## Main definitions

- `Utf8.Lead.Fits` — the bytes that may follow a first byte
- `Utf8.Lead.value` — the code that they add up to
- `Utf8.Encodes` — the rows of bytes that encode one character
- `Utf8.HasSurrogate` — the texts that no bytes encode

## Main statements

- `Utf8.encodes_cons_iff` — a first byte and what fits it encode a character
- `Utf8.encodes_utf8EncodeChar` — every character has an encoding
- `Utf8.decode?_eq_ok_iff` — what is decoded
- `Utf8.encode?_eq_ok_iff` — the texts that have bytes
-/

namespace StreamTypes.Text.Utf8

/-! ### One character -/

/-- A byte that does not begin a character. -/
def IsTail (b : UInt8) : Prop :=
  0x80 ≤ b.toNat ∧ b.toNat ≤ 0xBF

namespace Lead

/-- The bytes that may follow a first byte. -/
inductive Fits (lead : Lead) : List UInt8 → Prop
  | none (h : lead.following = 0) : Fits lead []
  | some {second : UInt8} {tails : List UInt8} (hleast : lead.least ≤ second.toNat)
    (hmost : second.toNat ≤ lead.most) (htails : ∀ b ∈ tails, IsTail b)
    (h : lead.following = tails.length + 1) : Fits lead (second :: tails)

/-- The code of a character, of which the bytes behind the first one are given. -/
def value (lead : Lead) (more : List UInt8) : Nat :=
  more.foldl (fun n b => 64 * n + (b.toNat - 0x80)) lead.bits

variable {lead : Lead} {more rest bytes : List UInt8}

theorem Fits.length_eq (h : lead.Fits more) : more.length = lead.following := by
  cases h with
  | none h => rw [h, List.length_nil]
  | some _ _ _ h => rw [h, List.length_cons]

theorem Fits.continuation_eq (h : lead.Fits more) : lead.continuation (more ++ rest) = more := by
  cases h with
  | none h => simp [continuation, h]
  | @some second tails hleast hmost htails h =>
    have htail : (tails.takeWhile fun b => 0x80 ≤ b.toNat && b.toNat ≤ 0xBF) = tails :=
      List.takeWhile_eq_self_iff.2 fun b hb => by simpa [IsTail] using htails b hb
    simp [continuation, h, hleast, hmost, htail]

/-- Enough bytes that go on with a character fit its first one, and the rest is behind them. -/
theorem fits_continuation (h : (lead.continuation bytes).length = lead.following) :
    lead.Fits (lead.continuation bytes) ∧
      bytes = lead.continuation bytes ++ bytes.drop (lead.continuation bytes).length := by
  unfold continuation at h ⊢
  split at h
  · exact ⟨.none (by simpa using h.symm), by simp⟩
  · exact ⟨.none (by simpa using h.symm), by simp⟩
  · rename_i n second tails hfollowing
    by_cases hsecond : lead.least ≤ second.toNat && second.toNat ≤ lead.most
    · rw [if_pos hsecond] at h ⊢
      rw [Bool.and_eq_true, decide_eq_true_eq, decide_eq_true_eq] at hsecond
      simp only [List.length_cons] at h
      refine ⟨.some hsecond.1 hsecond.2 (fun b hb => ?_) h.symm, ?_⟩
      · simpa [IsTail] using List.mem_takeWhile_imp hb
      · have hprefix := (List.takeWhile_prefix (l := tails.take n) fun b : UInt8 =>
          0x80 ≤ b.toNat && b.toNat ≤ 0xBF).trans (List.take_prefix n tails)
        rw [List.length_cons, List.drop_succ_cons, List.cons_append]
        exact congrArg _ (List.prefix_iff_eq_append.1 hprefix).symm
    · rw [if_neg hsecond, List.length_nil] at h
      omega

end Lead

/-! ### Its bytes -/

/-- The rows of bytes that encode one character, with its code. The second byte is bounded so that
the code is not so small that fewer bytes would do, no surrogate and not too large. -/
inductive Encodes : Nat → List UInt8 → Prop
  | one {a : UInt8} (ha : a.toNat < 0x80) : Encodes a.toNat [a]
  | two {a b : UInt8} (hleast : 0xC2 ≤ a.toNat) (hmost : a.toNat < 0xE0) (hb : IsTail b) :
    Encodes (64 * (a.toNat - 0xC0) + (b.toNat - 0x80)) [a, b]
  | three {a b c : UInt8} (hleast : 0xE0 ≤ a.toNat) (hmost : a.toNat < 0xF0)
    (hb : (if a.toNat = 0xE0 then 0xA0 else 0x80) ≤ b.toNat)
    (hb' : b.toNat ≤ if a.toNat = 0xED then 0x9F else 0xBF) (hc : IsTail c) :
    Encodes (64 * (64 * (a.toNat - 0xE0) + (b.toNat - 0x80)) + (c.toNat - 0x80)) [a, b, c]
  | four {a b c d : UInt8} (hleast : 0xF0 ≤ a.toNat) (hmost : a.toNat < 0xF5)
    (hb : (if a.toNat = 0xF0 then 0x90 else 0x80) ≤ b.toNat)
    (hb' : b.toNat ≤ if a.toNat = 0xF4 then 0x8F else 0xBF) (hc : IsTail c) (hd : IsTail d) :
    Encodes (64 * (64 * (64 * (a.toNat - 0xF0) + (b.toNat - 0x80)) + (c.toNat - 0x80)) +
      (d.toNat - 0x80)) [a, b, c, d]

/-- What first bytes say, by the number of bytes that follow. -/
theorem lead?_eq_some_iff {byte : UInt8} {lead : Lead} : lead? byte = some lead ↔
    (byte.toNat < 0x80 ∧ lead = ⟨byte.toNat, 0, 0x80, 0xBF⟩) ∨
    (0xC2 ≤ byte.toNat ∧ byte.toNat < 0xE0 ∧ lead = ⟨byte.toNat - 0xC0, 1, 0x80, 0xBF⟩) ∨
    (0xE0 ≤ byte.toNat ∧ byte.toNat < 0xF0 ∧ lead = ⟨byte.toNat - 0xE0, 2,
      if byte.toNat = 0xE0 then 0xA0 else 0x80, if byte.toNat = 0xED then 0x9F else 0xBF⟩) ∨
    (0xF0 ≤ byte.toNat ∧ byte.toNat < 0xF5 ∧ lead = ⟨byte.toNat - 0xF0, 3,
      if byte.toNat = 0xF0 then 0x90 else 0x80, if byte.toNat = 0xF4 then 0x8F else 0xBF⟩) := by
  unfold lead?
  dsimp only
  generalize byte.toNat = n
  by_cases h1 : n < 0x80
  · rw [if_pos h1, Option.some.injEq, eq_comm]
    exact ⟨fun h => .inl ⟨h1, h⟩, by rintro (h | h | h | h) <;> first | omega | exact h.2⟩
  rw [if_neg h1]
  by_cases h2 : n < 0xC2
  · rw [if_pos h2]
    exact ⟨nofun, by omega⟩
  rw [if_neg h2]
  by_cases h3 : n < 0xE0
  · rw [if_pos h3, Option.some.injEq, eq_comm]
    exact ⟨fun h => .inr (.inl ⟨by omega, h3, h⟩), by
      rintro (h | h | h | h) <;> first | omega | exact h.2.2⟩
  rw [if_neg h3]
  by_cases h4 : n < 0xF0
  · rw [if_pos h4, Option.some.injEq, eq_comm]
    exact ⟨fun h => .inr (.inr (.inl ⟨by omega, h4, h⟩)), by
      rintro (h | h | h | h) <;> first | omega | exact h.2.2⟩
  rw [if_neg h4]
  by_cases h5 : n < 0xF5
  · rw [if_pos h5, Option.some.injEq, eq_comm]
    exact ⟨fun h => .inr (.inr (.inr ⟨by omega, h5, h⟩)), by
      rintro (h | h | h | h) <;> first | omega | exact h.2.2⟩
  · rw [if_neg h5]
    exact ⟨nofun, by omega⟩

/-- A first byte and what fits it are the encoding of one character. -/
theorem encodes_cons_iff {byte : UInt8} {more : List UInt8} {n : Nat} :
    Encodes n (byte :: more) ↔
      ∃ lead, lead? byte = some lead ∧ lead.Fits more ∧ lead.value more = n := by
  simp only [lead?_eq_some_iff]
  constructor
  · intro h
    cases h with
    | one ha => exact ⟨_, .inl ⟨ha, rfl⟩, .none rfl, rfl⟩
    | two hleast hmost hb =>
      exact ⟨_, .inr (.inl ⟨hleast, hmost, rfl⟩), .some hb.1 hb.2 (by simp) rfl, rfl⟩
    | three hleast hmost hb hb' hc =>
      exact ⟨_, .inr (.inr (.inl ⟨hleast, hmost, rfl⟩)), .some hb hb' (by simp [hc]) rfl, rfl⟩
    | four hleast hmost hb hb' hc hd =>
      exact ⟨_, .inr (.inr (.inr ⟨hleast, hmost, rfl⟩)), .some hb hb' (by simp [hc, hd]) rfl, rfl⟩
  · rintro ⟨lead, hlead, h, rfl⟩
    have hlength := h.length_eq
    obtain ⟨ha, rfl⟩ | ⟨hleast, hmost, rfl⟩ | ⟨hleast, hmost, rfl⟩ | ⟨hleast, hmost, rfl⟩ := hlead
    · obtain rfl := List.eq_nil_of_length_eq_zero hlength
      exact .one ha
    · obtain ⟨b, rfl⟩ := List.length_eq_one_iff.1 hlength
      cases h with
      | some hb hb' => exact .two hleast hmost ⟨hb, hb'⟩
    · obtain ⟨b, c, rfl⟩ := List.length_eq_two.1 hlength
      cases h with
      | some hb hb' htails => exact .three hleast hmost hb hb' (htails c (by simp))
    · obtain ⟨b, c, d, rfl⟩ := List.length_eq_three.1 hlength
      cases h with
      | some hb hb' htails =>
        exact .four hleast hmost hb hb' (htails c (by simp)) (htails d (by simp))

open String (utf8EncodeChar)

theorem utf8EncodeChar_ofNat {n : Nat} (h : n.isValidChar) : utf8EncodeChar (Char.ofNat n) =
    if n ≤ 0x7F then [.ofNat n]
    else if n ≤ 0x7FF then [.ofNat (n / 64 % 32 + 192), .ofNat (n % 64 + 128)]
    else if n ≤ 0xFFFF then
      [.ofNat (n / 4096 % 16 + 224), .ofNat (n / 64 % 64 + 128), .ofNat (n % 64 + 128)]
    else
      [.ofNat (n / 262144 % 8 + 240), .ofNat (n / 4096 % 64 + 128), .ofNat (n / 64 % 64 + 128),
        .ofNat (n % 64 + 128)] := by
  have hval : (Char.ofNat n).val.toNat = n := by
    rw [Char.ofNat, dif_pos h]
    rfl
  rw [utf8EncodeChar, hval]

theorem eq_ofNat {b : UInt8} {n : Nat} (h : b.toNat = n) : b = .ofNat n := by
  rw [← h, UInt8.ofNat_toNat]

theorem Encodes.isValidChar {n : Nat} {bytes : List UInt8} (h : Encodes n bytes) :
    n.isValidChar := by
  unfold Nat.isValidChar
  cases h with
  | one ha => omega
  | two hleast hmost hb =>
    unfold IsTail at hb
    omega
  | three hleast hmost hb hb' hc =>
    unfold IsTail at hc
    split at hb <;> split at hb' <;> omega
  | four hleast hmost hb hb' hc hd =>
    unfold IsTail at hc hd
    split at hb <;> split at hb' <;> omega

/-- The bytes of a character are its usual ones. -/
theorem Encodes.eq_encoded {n : Nat} {bytes : List UInt8} (h : Encodes n bytes) :
    bytes = utf8EncodeChar (Char.ofNat n) := by
  rw [utf8EncodeChar_ofNat h.isValidChar]
  cases h with
  | one ha => rw [if_pos (by omega), ← eq_ofNat rfl]
  | two hleast hmost hb =>
    unfold IsTail at hb
    rw [if_neg (by omega), if_pos (by omega)]
    simp only [List.cons.injEq, and_true]
    exact ⟨eq_ofNat (by omega), eq_ofNat (by omega)⟩
  | @three a b c hleast hmost hb hb' hc =>
    unfold IsTail at hc
    have hb : 0x80 ≤ b.toNat ∧ (a.toNat = 0xE0 → 0xA0 ≤ b.toNat) := by split at hb <;> omega
    have hb' : b.toNat ≤ 0xBF := by split at hb' <;> omega
    rw [if_neg (by omega), if_neg (by omega), if_pos (by omega)]
    simp only [List.cons.injEq, and_true]
    exact ⟨eq_ofNat (by omega), eq_ofNat (by omega), eq_ofNat (by omega)⟩
  | @four a b c d hleast hmost hb hb' hc hd =>
    unfold IsTail at hc hd
    have hb : 0x80 ≤ b.toNat ∧ (a.toNat = 0xF0 → 0x90 ≤ b.toNat) := by split at hb <;> omega
    have hb' : b.toNat ≤ 0xBF := by split at hb' <;> omega
    rw [if_neg (by omega), if_neg (by omega), if_neg (by omega)]
    simp only [List.cons.injEq, and_true]
    exact ⟨eq_ofNat (by omega), eq_ofNat (by omega), eq_ofNat (by omega), eq_ofNat (by omega)⟩

theorem exists_byte {n : Nat} (h : n < 256) : ∃ b : UInt8, .ofNat n = b ∧ b.toNat = n :=
  ⟨_, rfl, by rw [UInt8.toNat_ofNat', Nat.mod_eq_of_lt (by omega)]⟩

/-- Every character has an encoding, which is the usual one. -/
theorem encodes_utf8EncodeChar {n : Nat} (h : n.isValidChar) :
    Encodes n (utf8EncodeChar (Char.ofNat n)) := by
  rw [utf8EncodeChar_ofNat h]
  unfold Nat.isValidChar at h
  split
  · obtain ⟨a, ha, hn⟩ := exists_byte (n := n) (by omega)
    rw [ha, ← hn]
    exact .one (by omega)
  obtain ⟨last, hlast, hn⟩ := exists_byte (n := n % 64 + 128) (by omega)
  have htail : IsTail last := by unfold IsTail; omega
  split
  · obtain ⟨a, ha, hna⟩ := exists_byte (n := n / 64 % 32 + 192) (by omega)
    rw [ha, hlast]
    have hcode : n = 64 * (a.toNat - 0xC0) + (last.toNat - 0x80) := by omega
    rw [hcode]
    exact .two (by omega) (by omega) htail
  obtain ⟨c, hc, hnc⟩ := exists_byte (n := n / 64 % 64 + 128) (by omega)
  have hctail : IsTail c := by unfold IsTail; omega
  split
  · obtain ⟨a, ha, hna⟩ := exists_byte (n := n / 4096 % 16 + 224) (by omega)
    rw [ha, hc, hlast]
    have hcode : n = 64 * (64 * (a.toNat - 0xE0) + (c.toNat - 0x80)) + (last.toNat - 0x80) := by
      omega
    have hleast : (if a.toNat = 0xE0 then 0xA0 else 0x80) ≤ c.toNat := by split <;> omega
    have hmost : c.toNat ≤ if a.toNat = 0xED then 0x9F else 0xBF := by split <;> omega
    rw [hcode]
    exact .three (by omega) (by omega) hleast hmost htail
  · obtain ⟨a, ha, hna⟩ := exists_byte (n := n / 262144 % 8 + 240) (by omega)
    obtain ⟨b, hb, hnb⟩ := exists_byte (n := n / 4096 % 64 + 128) (by omega)
    rw [ha, hb, hc, hlast]
    have hcode : n = 64 * (64 * (64 * (a.toNat - 0xF0) + (b.toNat - 0x80)) + (c.toNat - 0x80)) +
        (last.toNat - 0x80) := by
      omega
    have hleast : (if a.toNat = 0xF0 then 0x90 else 0x80) ≤ b.toNat := by split <;> omega
    have hmost : b.toNat ≤ if a.toNat = 0xF4 then 0x8F else 0xBF := by split <;> omega
    rw [hcode]
    exact .four (by omega) (by omega) hleast hmost hctail htail

/-! ### Texts -/

/-- A character with its bytes is decoded, and then what follows them. -/
theorem decodeFrom?_append {n : Nat} {bytes : List UInt8} (h : Encodes n bytes) (position : Nat)
    (rest : List UInt8) : decodeFrom? position (bytes ++ rest) =
      (Char.ofNat n :: ·) <$> decodeFrom? (position + bytes.length) rest := by
  obtain _ | ⟨byte, more⟩ := bytes
  · cases h
  obtain ⟨lead, hlead, hfits, rfl⟩ := encodes_cons_iff.1 h
  rw [List.cons_append, decodeFrom?, hlead]
  dsimp only
  rw [hfits.continuation_eq, if_pos hfits.length_eq, List.drop_left, List.length_cons,
    Nat.add_assoc, Nat.add_comm 1]
  cases decodeFrom? (position + (more.length + 1)) rest <;> rfl

theorem decodeFrom?_encoded (cs : List Char) (position : Nat) :
    decodeFrom? position (cs.flatMap utf8EncodeChar) = .ok cs := by
  induction cs generalizing position with
  | nil => rw [List.flatMap_nil, decodeFrom?]
  | cons c cs ih =>
    have hc : Encodes c.toNat (utf8EncodeChar (Char.ofNat c.toNat)) :=
      encodes_utf8EncodeChar c.valid
    rw [Char.ofNat_toNat] at hc
    rw [List.flatMap_cons, decodeFrom?_append hc, ih, Char.ofNat_toNat]
    rfl

theorem encoded_of_decodeFrom? {cs : List Char} {position : Nat} {bytes : List UInt8}
    (h : decodeFrom? position bytes = .ok cs) : bytes = cs.flatMap utf8EncodeChar := by
  fun_induction decodeFrom? position bytes generalizing cs with
  | case1 =>
    cases h
    rfl
  | case2 | case4 | case5 => cases h
  | case3 position byte rest lead hlead more hlength _ chars hrest =>
    rename_i ih
    cases h
    obtain ⟨hfits, hbytes⟩ := Lead.fits_continuation hlength
    have hencodes := encodes_cons_iff.2 ⟨lead, hlead, hfits, rfl⟩
    calc
      byte :: rest = byte :: more ++ rest.drop more.length := congrArg (byte :: ·) hbytes
      _ = utf8EncodeChar (Char.ofNat (lead.value more)) ++ chars.flatMap utf8EncodeChar := by
        rw [← ih hrest, hencodes.eq_encoded]

theorem byteArray_toList (bytes : ByteArray) : bytes.toList = bytes.data.toList := by
  have hloop (i : Nat) (before : List UInt8) : ByteArray.toList.loop bytes i before =
      before.reverse ++ bytes.data.toList.drop i := by
    fun_induction ByteArray.toList.loop bytes i before with
    | case1 i before h ih =>
      have hi : i < bytes.data.toList.length := h
      have hget : bytes.get! i = bytes.data.toList[i] := getElem!_pos bytes.data i h
      rw [ih, List.drop_eq_getElem_cons hi, hget, List.reverse_cons, List.append_assoc]
      rfl
    | case2 i before h =>
      have hi : bytes.data.toList.length ≤ i := Nat.le_of_not_lt h
      rw [List.drop_eq_nil_of_le hi, List.append_nil]
  rw [ByteArray.toList, hloop]
  rfl

theorem encode_ofList (cs : List Char) : encode (String.ofList cs) = cs.flatMap utf8EncodeChar := by
  rw [encode, byteArray_toList, String.toUTF8_eq_toByteArray, String.toByteArray_ofList,
    List.utf8Encode, List.toList_data_toByteArray]

/-- Decoding is the inverse of encoding: exactly the bytes of a text have a text. -/
theorem decode?_eq_ok_iff {bytes : List UInt8} {text : String} :
    decode? bytes = .ok text ↔ bytes = encode text := by
  obtain ⟨cs, rfl⟩ : ∃ cs, text = String.ofList cs := ⟨text.toList, String.ofList_toList.symm⟩
  rw [encode_ofList, decode?]
  constructor
  · intro h
    cases hdecode : decodeFrom? 0 bytes with
    | error fault =>
      rw [hdecode] at h
      cases h
    | ok decoded =>
      rw [hdecode] at h
      have hcs : decoded = cs := String.ofList_injective (Except.ok.inj h)
      rw [encoded_of_decodeFrom? hdecode, hcs]
  · rintro rfl
    rw [decodeFrom?_encoded]
    rfl

theorem encode_injective : Function.Injective encode := by
  intro s t h
  have hs : decode? (encode t) = .ok s := decode?_eq_ok_iff.2 h.symm
  rw [decode?_eq_ok_iff.2 rfl, Except.ok.injEq] at hs
  exact hs.symm

/-! ### Texts with surrogates -/

/-- A text that holds a surrogate. -/
def HasSurrogate (text : WideText) : Prop :=
  ∃ index, CodePoint.surrogate index ∈ text

theorem hasSurrogate_append {t t' : WideText} :
    HasSurrogate (t ++ t') ↔ HasSurrogate t ∨ HasSurrogate t' := by
  simp [HasSurrogate, exists_or]

@[simp] theorem not_hasSurrogate_nil : ¬ HasSurrogate [] := by
  simp [HasSurrogate]

@[simp] theorem hasSurrogate_char_cons {c : Char} {t : WideText} :
    HasSurrogate (.char c :: t) ↔ HasSurrogate t := by
  simp [HasSurrogate]

@[simp] theorem not_hasSurrogate_ofString (s : String) : ¬ HasSurrogate (.ofString s) := by
  simp [HasSurrogate, WideText.ofString, WideText.ofChars]

theorem hasSurrogate_iff {text : WideText} :
    HasSurrogate text ↔ text.dropWhile (fun c => !isSurrogate c) ≠ [] := by
  rw [Ne, List.dropWhile_eq_nil_iff]
  constructor
  · rintro ⟨index, hmem⟩ hall
    exact Bool.noConfusion (hall _ hmem)
  · intro hnot
    by_contra habsent
    refine hnot fun c hc => ?_
    cases c with
    | char => rfl
    | surrogate index => exact absurd ⟨index, hc⟩ habsent

/-- Exactly the texts without surrogates have bytes, which are those of a string. -/
theorem encode?_eq_ok_iff {text : WideText} {bytes : List UInt8} : encode? text = .ok bytes ↔
    ¬ HasSurrogate text ∧ bytes = encode (String.ofList text.shown) := by
  rw [hasSurrogate_iff, not_not, encode?]
  split
  · rename_i hnil
    rw [Except.ok.injEq, eq_comm]
    exact (and_iff_right hnil).symm
  · rename_i hcons
    exact ⟨nofun, fun h => by simp [hcons] at h⟩

theorem hasSurrogate_iff_encode? {text : WideText} :
    HasSurrogate text ↔ ∃ fault, encode? text = .error fault := by
  cases hencode : encode? text with
  | ok bytes => exact iff_of_false (encode?_eq_ok_iff.1 hencode).1 nofun
  | error fault =>
    refine iff_of_true ?_ ⟨fault, rfl⟩
    by_contra hnone
    rw [encode?_eq_ok_iff.2 ⟨hnone, rfl⟩] at hencode
    cases hencode

end StreamTypes.Text.Utf8
