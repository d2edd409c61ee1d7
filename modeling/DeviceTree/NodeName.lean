import DeviceTree.Text.Split

/-!
# Node names

A node name is a base name, which may be followed by `@` and a unit address. Any text can be a node name; a
regular one keeps to the characters that the format allows in each part.
-/

namespace DeviceTree.NodeName

/-- The base name and the unit address, which stands after the last `@`. -/
def parts (name : String) : List Char × Option (List Char) :=
  match Split.splitLast? '@' name.toList with
  | some (base, address) => (base, some address)
  | none => (name.toList, none)

/-- The name without its unit address. -/
def base (name : String) : String :=
  String.ofList (parts name).1

/-- The characters of a regular base name. -/
def isBaseChar (c : Char) : Bool :=
  c.isAlphanum || [',', '.', '_', '+', '*', '#', '?', '-'].contains c

/-- The characters of a regular unit address. -/
def isAddressChar (c : Char) : Bool :=
  c.isDigit || ('a' ≤ c && c ≤ 'f') || c == ','

/-- Whether both parts of the name keep to their characters. -/
def isRegular (name : String) : Bool :=
  (parts name).1.all isBaseChar && ((parts name).2.getD []).all isAddressChar

end DeviceTree.NodeName
