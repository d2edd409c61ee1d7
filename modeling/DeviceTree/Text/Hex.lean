/-!
# Hexadecimal numbers

Numbers are shown in lowercase hexadecimal in two ways: with a leading `0x` and as few digits as they need
(`prefixed`), or with a fixed number of digits (`padded`).
-/

namespace DeviceTree.Hex

/-- The number in base 16 behind `0x`, without leading zeros. -/
def prefixed (n : Nat) : String :=
  "0x" ++ String.ofList (Nat.toDigits 16 n)

/-- The `width` low digits of the number in base 16. -/
def digits : (width n : Nat) → List Char
  | 0, _ => []
  | width + 1, n => digits width (n / 16) ++ [Nat.digitChar (n % 16)]

/-- The number in base 16 with exactly `width` digits. -/
def padded (width n : Nat) : String :=
  String.ofList (digits width n)

@[simp] theorem length_digits (width n : Nat) : (digits width n).length = width := by
  induction width generalizing n with
  | zero => rfl
  | succ width ih => simp [digits, ih]

end DeviceTree.Hex
