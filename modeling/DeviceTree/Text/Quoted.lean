import DeviceTree.Text.Graphic

/-!
# Quoted texts

A name is shown in a message between double quotes, on one line and in visible characters only: the usual
short escapes where there is one, `\u` and the number in braces for every other character that is not graphic
or that would combine with the character before it.
-/

namespace DeviceTree.Quoted

/-- The form of one character between the quotes. -/
def escape (c : Char) : List Char :=
  if c = '\x00' then ['\\', '0']
  else if c = '\t' then ['\\', 't']
  else if c = '\r' then ['\\', 'r']
  else if c = '\n' then ['\\', 'n']
  else if c = '"' ∨ c = '\\' then ['\\', c]
  else if Graphic.isGraphic c && !Graphic.isCombining c then [c]
  else ['\\', 'u', '\x7b'] ++ Nat.toDigits 16 c.toNat ++ ['\x7d']

/-- The text between double quotes, with every character in its escaped form. -/
def quote (s : String) : String :=
  "\"" ++ String.ofList (s.toList.flatMap escape) ++ "\""

end DeviceTree.Quoted
