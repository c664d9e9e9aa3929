import RaidStatus.Text.Basic

/-!
# Texts and bytes

Every byte sequence can be read as a text and written back unchanged.  Where
the bytes begin with the UTF-8 form of a character, reading takes that
character; otherwise it takes the single byte as a symbol of its own.  Which
byte sequences are forms of characters is decided by the core library: an
encoded surrogate, an overlong form or a code point beyond the last one is
none.

The main statement is `encode_decode`: reading loses no byte.
-/

namespace RaidStatus

/-- The bytes that stand for a symbol. -/
def Symbol.utf8 : Symbol → List UInt8
  | .char c => String.utf8EncodeChar c
  | .byte b => [b]

namespace Text
namespace Utf8

/-- The bytes of a text. -/
def encode (text : Text) : List UInt8 :=
  text.flatMap Symbol.utf8

/-- The character whose UTF-8 form the bytes begin with, if there is one.  No
form is longer than four bytes. -/
def leading? (bytes : List UInt8) : Option Char :=
  (bytes.take 4).toByteArray.utf8DecodeChar? 0

/-- The text of the bytes that remain when the first `taken` bytes, which
already belong to a character, are passed over. -/
def decodeFrom : (taken : Nat) → List UInt8 → Text
  | _, [] => []
  | taken + 1, _ :: bytes => decodeFrom taken bytes
  | 0, b :: bytes =>
    match leading? (b :: bytes) with
    | some c => .char c :: decodeFrom (c.utf8Size - 1) bytes
    | none => .byte b :: decodeFrom 0 bytes

/-- The text that a byte sequence stands for. -/
def decode (bytes : List UInt8) : Text :=
  decodeFrom 0 bytes

/-- Bytes begin with the form of the character that leads them. -/
theorem form_isPrefix_of_leading?_eq_some {bytes : List UInt8} {c : Char}
    (hlead : leading? bytes = some c) :
    String.utf8EncodeChar c <+: bytes := by
  obtain ⟨rest, hrest⟩ :=
    ByteArray.exists_of_utf8DecodeChar?_eq_some hlead
  have hlist :
      bytes.take 4 = String.utf8EncodeChar c ++ rest.data.toList := by
    have := congrArg (fun b : ByteArray => b.data.toList) hrest
    simpa using this
  exact ⟨rest.data.toList ++ bytes.drop 4, by
    rw [← List.append_assoc, ← hlist, List.take_append_drop]⟩

/-- A character leads its own form, whatever follows. -/
theorem leading?_form_append (c : Char) (rest : List UInt8) :
    leading? (String.utf8EncodeChar c ++ rest) = some c := by
  have hlength : (String.utf8EncodeChar c).length ≤ 4 := by
    simpa using c.utf8Size_le_four
  rw [leading?, List.take_append, List.take_of_length_le hlength,
    List.toByteArray_append]
  exact ByteArray.utf8DecodeChar?_utf8EncodeChar_append

theorem decodeFrom_eq (taken : Nat) (bytes : List UInt8) :
    decodeFrom taken bytes = decodeFrom 0 (bytes.drop taken) := by
  induction taken generalizing bytes with
  | zero => rfl
  | succ taken ih =>
    cases bytes with
    | nil => simp [decodeFrom]
    | cons b bytes => simpa [decodeFrom] using ih bytes

@[simp] theorem decode_nil : decode [] = [] := rfl

/-- Bytes led by no character give their first byte as a symbol. -/
theorem decode_cons_of_leading?_eq_none {b : UInt8} {bytes : List UInt8}
    (hlead : leading? (b :: bytes) = none) :
    decode (b :: bytes) = .byte b :: decode bytes := by
  simp [decode, decodeFrom, hlead]

/-- The form of a character gives that character, whatever follows. -/
theorem decode_form_append (c : Char) (rest : List UInt8) :
    decode (String.utf8EncodeChar c ++ rest) = .char c :: decode rest := by
  have hlead := leading?_form_append c rest
  cases hform : String.utf8EncodeChar c with
  | nil => exact absurd hform String.utf8EncodeChar_ne_nil
  | cons b form =>
    have hlength : c.utf8Size - 1 = form.length := by
      rw [← String.length_utf8EncodeChar, hform]
      simp
    rw [hform] at hlead
    simp only [List.cons_append] at hlead ⊢
    simp only [decode, decodeFrom, hlead]
    rw [hlength, decodeFrom_eq, List.drop_left]

/-- A text of characters is read from its own bytes. -/
theorem decode_encode_ofString (s : String) :
    decode (encode (ofString s)) = ofString s := by
  suffices hchars : ∀ chars : List Char,
      decode (encode (chars.map .char)) = chars.map .char from hchars s.toList
  intro chars
  induction chars with
  | nil => rfl
  | cons c chars ih =>
    have hencode : encode (Symbol.char c :: chars.map .char) =
        String.utf8EncodeChar c ++ encode (chars.map .char) := rfl
    rw [List.map_cons, hencode, decode_form_append, ih]

/-- Behind the form of the character that leads some bytes, the rest of them
begins. -/
theorem cons_eq_append_of_leading?_eq_some {b : UInt8} {bytes : List UInt8}
    {c : Char} (hlead : leading? (b :: bytes) = some c) :
    b :: bytes =
      String.utf8EncodeChar c ++ bytes.drop (c.utf8Size - 1) := by
  obtain ⟨rest, hrest⟩ := form_isPrefix_of_leading?_eq_some hlead
  have hfull : (b :: bytes).drop c.utf8Size = rest := by
    rw [← hrest, ← String.length_utf8EncodeChar, List.drop_left]
  obtain ⟨n, hn⟩ :=
    Nat.exists_eq_succ_of_ne_zero (Nat.ne_of_gt c.utf8Size_pos)
  have hdrop : bytes.drop (c.utf8Size - 1) = rest := by
    simpa [hn] using hfull
  rw [hdrop, hrest]

theorem encode_decodeFrom (taken : Nat) (bytes : List UInt8) :
    encode (decodeFrom taken bytes) = bytes.drop taken := by
  fun_induction decodeFrom taken bytes with
  | case1 => simp [encode]
  | case2 taken b bytes ih => simpa using ih
  | case3 b bytes c hlead ih =>
    have hencode (text : Text) : encode (Symbol.char c :: text) =
        String.utf8EncodeChar c ++ encode text := rfl
    rw [hencode, ih, List.drop_zero, ← cons_eq_append_of_leading?_eq_some hlead]
  | case4 b bytes hlead ih =>
    have hencode (text : Text) : encode (Symbol.byte b :: text) =
        b :: encode text := rfl
    rw [hencode, ih]
    rfl

/-- Reading loses no byte. -/
theorem encode_decode (bytes : List UInt8) :
    encode (decode bytes) = bytes := by
  simpa [decode] using encode_decodeFrom 0 bytes

end Utf8
end Text
end RaidStatus
