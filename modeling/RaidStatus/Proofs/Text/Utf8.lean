import RaidStatus.Text.Utf8

/-!
# What reading bytes as a text means

Reading takes the form of a character wherever the bytes go on with one, and a
single byte where they do not.  `Utf8.Reads` says this as a relation between
bytes and texts, for which it does not matter how a form is recognized.  Each
byte sequence is read as exactly one text (`Utf8.reads_iff`).

So nothing that follows a broken form is lost with it: reading goes on at the
very next byte.
-/

namespace RaidStatus
namespace Text
namespace Utf8

/-- The bytes are read as this text. -/
inductive Reads : List UInt8 → Text → Prop
  | nil : Reads [] []
  /-- The form of a character is read as the character. -/
  | char (c : Char) {bytes : List UInt8} {text : Text}
      (hrest : Reads bytes text) :
    Reads (String.utf8EncodeChar c ++ bytes) (.char c :: text)
  /-- A byte with which no form begins here is read by itself. -/
  | byte (b : UInt8) {bytes : List UInt8} {text : Text}
      (hnone : ∀ c, ¬ String.utf8EncodeChar c <+: b :: bytes)
      (hrest : Reads bytes text) :
    Reads (b :: bytes) (.byte b :: text)

theorem leading?_eq_some_iff {bytes : List UInt8} {c : Char} :
    leading? bytes = some c ↔ String.utf8EncodeChar c <+: bytes := by
  constructor
  · exact form_isPrefix_of_leading?_eq_some
  · rintro ⟨rest, rfl⟩
    exact leading?_form_append c rest

theorem leading?_eq_none_iff {bytes : List UInt8} :
    leading? bytes = none ↔ ∀ c, ¬ String.utf8EncodeChar c <+: bytes := by
  simp only [Option.eq_none_iff_forall_ne_some, ne_eq, leading?_eq_some_iff]

theorem reads_decodeFrom (taken : Nat) (bytes : List UInt8) :
    Reads (bytes.drop taken) (decodeFrom taken bytes) := by
  fun_induction decodeFrom taken bytes with
  | case1 taken =>
    rw [List.drop_nil]
    exact .nil
  | case2 taken b bytes ih => exact ih
  | case3 b bytes c hlead ih =>
    rw [List.drop_zero, cons_eq_append_of_leading?_eq_some hlead]
    exact .char c ih
  | case4 b bytes hlead ih =>
    exact .byte b (leading?_eq_none_iff.mp hlead) ih

/-- Reading bytes gives the one text that they are read as. -/
theorem reads_iff {bytes : List UInt8} {text : Text} :
    Reads bytes text ↔ decode bytes = text := by
  constructor
  · intro hreads
    induction hreads with
    | nil => rfl
    | char c hrest ih => rw [decode_form_append, ih]
    | byte b hnone hrest ih =>
      rw [decode_cons_of_leading?_eq_none (leading?_eq_none_iff.mpr hnone),
        ih]
  · rintro rfl
    exact reads_decodeFrom 0 bytes

/-- A text of characters is read from its own bytes. -/
theorem decode_encode_of_forall_char {text : Text}
    (htext : ∀ s ∈ text, ∃ c, s = .char c) :
    decode (encode text) = text := by
  rw [← reads_iff]
  induction text with
  | nil => exact .nil
  | cons s text ih =>
    obtain ⟨c, rfl⟩ := htext s (List.mem_cons_self ..)
    exact .char c (ih fun t ht => htext t (List.mem_cons_of_mem _ ht))

theorem encode_append (front back : Text) :
    encode (front ++ back) = encode front ++ encode back :=
  List.flatMap_append

theorem encode_isInfix {part text : Text} (hpart : part <:+: text) :
    encode part <:+: encode text := by
  obtain ⟨before, behind, rfl⟩ := hpart
  exact ⟨encode before, encode behind, by simp [encode_append]⟩

/-- A broken form does not take the line feed behind it along. -/
example : decode [0xe2, 0x82, 0x0a] =
    [.byte 0xe2, .byte 0x82, .char '\n'] := by
  decide

end Utf8
end Text
end RaidStatus
