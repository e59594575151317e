import StreamTypes.Text.Quoted

/-!
# UTF-8

Texts are stored as bytes. A first byte says how many bytes follow it, and which
the second one may be, so that no character has two encodings and no encoding
stands for a surrogate.

## Main definitions

- `Utf8.Fault` — where and why a row of bytes is no text
- `Utf8.decode?` — the text of a row of bytes
- `Utf8.EncodeFault` — where a text has no bytes
- `Utf8.encode?` — the bytes of a text that may hold surrogates
- `unifiedLines` — a text in which every line ends alike
-/

namespace StreamTypes.Text

namespace Utf8

/-- Why a row of bytes is no text. -/
inductive Cause where
  | start
  | continuation
  | ending
  deriving DecidableEq, Repr

/-- Where and why a row of bytes is no text. -/
structure Fault where
  /-- The position of the first byte that has no meaning. -/
  position : Nat
  byte : UInt8
  /-- How many bytes after it belong to the same character. -/
  following : Nat
  cause : Cause
  deriving DecidableEq, Repr

namespace Cause

/-- What is wrong, in words. -/
def message : Cause → String
  | .start => "invalid start byte"
  | .continuation => "invalid continuation byte"
  | .ending => "unexpected end of data"

end Cause

/-- What is wrong and where, in words. -/
def Fault.message (fault : Fault) : String :=
  let place :=
    if fault.following = 0 then
      "byte 0x" ++ String.ofList (Text.hexDigits 2 fault.byte.toNat) ++ " in position " ++
        Nat.repr fault.position
    else
      "bytes in position " ++ Nat.repr fault.position ++ "-" ++
        Nat.repr (fault.position + fault.following)
  "'utf-8' codec can't decode " ++ place ++ ": " ++ fault.cause.message

/-- What a first byte says: the bits that it adds to the character, how many bytes
follow, and the range of the second byte. -/
structure Lead where
  bits : Nat
  following : Nat
  least : Nat := 0x80
  most : Nat := 0xBF

/-- What a byte says if a character begins with it. -/
def lead? (byte : UInt8) : Option Lead :=
  let n := byte.toNat
  if n < 0x80 then some ⟨n, 0, 0x80, 0xBF⟩
  else if n < 0xC2 then none
  else if n < 0xE0 then some ⟨n - 0xC0, 1, 0x80, 0xBF⟩
  else if n < 0xF0 then
    some ⟨n - 0xE0, 2, if n = 0xE0 then 0xA0 else 0x80, if n = 0xED then 0x9F else 0xBF⟩
  else if n < 0xF5 then
    some ⟨n - 0xF0, 3, if n = 0xF0 then 0x90 else 0x80, if n = 0xF4 then 0x8F else 0xBF⟩
  else none

/-- The bytes that go on with a character, at most as many as it still needs. -/
def Lead.continuation (lead : Lead) (bytes : List UInt8) : List UInt8 :=
  match lead.following, bytes with
  | 0, _ | _, [] => []
  | n + 1, second :: rest =>
    if lead.least ≤ second.toNat && second.toNat ≤ lead.most then
      second :: (rest.take n).takeWhile fun b => 0x80 ≤ b.toNat && b.toNat ≤ 0xBF
    else []

/-- The characters of a row of bytes that starts at a position. -/
def decodeFrom? (position : Nat) (bytes : List UInt8) : Except Fault (List Char) :=
  match bytes with
  | [] => .ok []
  | byte :: rest =>
    match lead? byte with
    | none => .error ⟨position, byte, 0, .start⟩
    | some lead =>
      let more := lead.continuation rest
      if more.length = lead.following then
        let value := more.foldl (fun n b => 64 * n + (b.toNat - 0x80)) lead.bits
        match decodeFrom? (position + 1 + more.length) (rest.drop more.length) with
        | .ok chars => .ok (Char.ofNat value :: chars)
        | .error fault => .error fault
      else
        -- Either the bytes end here, or the next one belongs to another character.
        .error ⟨position, byte, more.length,
          if more.length = rest.length then .ending else .continuation⟩
termination_by bytes.length
decreasing_by simp only [List.length_drop, List.length_cons]; omega

/-- The text of a row of bytes. -/
def decode? (bytes : List UInt8) : Except Fault String :=
  String.ofList <$> decodeFrom? 0 bytes

/-- The bytes of a string. -/
def encode (text : String) : List UInt8 :=
  text.toUTF8.toList

/-- Where a text has no bytes, because there are surrogates. -/
structure EncodeFault where
  position : Nat
  first : CodePoint
  /-- The number of surrogates right behind it. -/
  following : Nat
  deriving DecidableEq, Repr

/-- What is wrong and where, in words. -/
def EncodeFault.message (fault : EncodeFault) : String :=
  let place :=
    if fault.following = 0 then
      "character '" ++ String.ofList (Text.escapedCode fault.first.code) ++ "' in position " ++
        Nat.repr fault.position
    else
      "characters in position " ++ Nat.repr fault.position ++ "-" ++
        Nat.repr (fault.position + fault.following)
  "'utf-8' codec can't encode " ++ place ++ ": surrogates not allowed"

/-- Whether a code point is a surrogate. -/
def isSurrogate : CodePoint → Bool
  | .char _ => false
  | .surrogate _ => true

/-- The bytes of a text, unless it holds a surrogate. -/
def encode? (text : WideText) : Except EncodeFault (List UInt8) :=
  match text.dropWhile fun c => !isSurrogate c with
  | [] => .ok (encode (String.ofList text.shown))
  | first :: rest =>
    .error ⟨(text.takeWhile fun c => !isSurrogate c).length, first,
      (rest.takeWhile isSurrogate).length⟩

end Utf8

/-- Characters in which every line ends with one line feed. -/
def unifiedLines : List Char → List Char
  | '\r' :: '\n' :: cs => '\n' :: unifiedLines cs
  | '\r' :: cs => '\n' :: unifiedLines cs
  | c :: cs => c :: unifiedLines cs
  | [] => []

end StreamTypes.Text
