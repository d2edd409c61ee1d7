import DeviceTree.Text.Utf8

/-!
# String literals of assembly text

Inside a quoted literal a quotation mark and a backslash stand behind a backslash, other visible ASCII characters
and spaces for themselves, and every other byte of the UTF-8 form is a backslash and three octal digits. Since
there are always three, a digit that follows is not taken in.
-/

namespace DeviceTree.Literal

/-- The digit of an octal number below eight. -/
def octalDigit (n : Nat) : Char :=
  Nat.digitChar (n % 8)

/-- The form of one byte inside a literal. -/
def escape (b : UInt8) : List Char :=
  let n := b.toNat
  if n = 0x22 ∨ n = 0x5C then ['\\', Char.ofNat n]
  else if 0x20 ≤ n ∧ n ≤ 0x7E then [Char.ofNat n]
  else ['\\', octalDigit (n / 64), octalDigit (n / 8), octalDigit n]

/-- The inside of the literal for a text. -/
def escaped (s : String) : List Char :=
  (Utf8.encode s).flatMap escape

end DeviceTree.Literal
