import RaidStatus.Text.Words

/-!
# Quoted texts

A text is quoted for display between two delimiters.  The delimiter is an
apostrophe, or a quotation mark for a text that holds apostrophes and no
quotation marks.  Escaped are backslashes, the delimiter, single bytes, the
characters up to `U+00FF` that have no visible shape, and all blanks but the
space.

Beyond `U+00FF` the blanks are not the only characters without a visible shape:
there are those of formatting such as the zero width space `U+200B`, those of
private use, and code points that are not assigned.  They are left as they are,
since they are not told apart from visible characters here.  So the texts that
are meant, and whose quoted form is right, are those that hold none of them.
-/

namespace RaidStatus
namespace Text
namespace Quoted

/-- The usual delimiter. -/
def apostrophe : Char := '\x27'

/-- The delimiter for texts that hold the usual one. -/
def quotationMark : Char := '\x22'

/-- The delimiter of a text. -/
def delimiter (text : Text) : Char :=
  if .char apostrophe ∈ text ∧ .char quotationMark ∉ text then quotationMark
  else apostrophe

/-- A number in lower-case hexadecimal digits, filled up with zeros. -/
def hex (width n : Nat) : Text :=
  ((Nat.toDigits 16 n).leftpad width '0').map .char

/-- The characters up to `U+00FF` without a visible shape, other than the
space: the control codes, the unbreakable space and the soft hyphen.  The
characters beyond `U+00FF` are not classified here. -/
def isHidden (c : Char) : Bool :=
  c.toNat < 0x20 || (0x7F ≤ c.toNat && c.toNat ≤ 0xA0) || c.toNat = 0xAD

/-- The quoted form of a symbol.  A byte is shown as the last two digits of a
code point that no character has.  Of the characters beyond `U+00FF` only the
blanks are escaped; every other one is taken to be visible. -/
def escape (delimiter : Char) : Symbol → Text
  | .byte b => ofString "\\udc" ++ hex 2 b.toNat
  | .char c =>
    if c = '\\' ∨ c = delimiter then [.char '\\', .char c]
    else if c = '\n' then ofString "\\n"
    else if c = '\x0d' then ofString "\\r"
    else if c = '\t' then ofString "\\t"
    else if isHidden c then ofString "\\x" ++ hex 2 c.toNat
    else if c ≠ ' ' ∧ (Symbol.char c).isBlank then
      ofString "\\u" ++ hex 4 c.toNat
    else [.char c]

/-- A text between its delimiters. -/
def quote (text : Text) : Text :=
  .char (delimiter text) ::
    (text.flatMap (escape (delimiter text)) ++ [.char (delimiter text)])

end Quoted
end Text
end RaidStatus
