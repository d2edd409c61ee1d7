import DeviceTree.Encode.Error
import DeviceTree.Encode.Settings
import DeviceTree.Structure

/-!
# What can be written

Before anything is written, the version is looked up and the boot information checked for what would not come
back: a reservation of size zero ends the map, a NUL ends a name, and a slash in a node's name would end it as a
step of a path. The checks of both kinds of output are the same (`checkedVersion`), but for sizes.
-/

namespace DeviceTree

/-- The name that keeps a node from being written: its own, or else the first of its properties'. -/
def Node.unwritableName? (n : Node) : Option String :=
  if n.name.toList.any (fun c => c == '\x00' || c == '/') then some n.name
  else (n.properties.find? (·.name.toList.contains '\x00')).map (·.name)

namespace BootInfo

/-- Refuses reservations of size zero and names that cannot be written, the first of each kind. -/
def checkWritable (info : BootInfo) : Except EncodeError Unit :=
  match info.reservations.find? (·.size == 0) with
  | some r => .error (.emptyReservation r.address)
  | none =>
    match info.root.preorder.findSome? Node.unwritableName? with
    | some name => .error (.invalidName name)
    | none => .ok ()

/-- The version to write, for boot information that can be written. -/
def checkedVersion (info : BootInfo) (s : Settings) : Except EncodeError Version :=
  match Version.ofNumber? s.version with
  | none => .error (.unknownVersion s.version)
  | some v => info.checkWritable.map fun _ => v

end BootInfo

/-- Refuses a number that does not fit in 32 bits. -/
def Quantity.check (q : Quantity) (n : Nat) : Except EncodeError Unit :=
  if n < 0x100000000 then .ok () else .error (.tooLarge q)

namespace Structure

/-- Refuses the first property record whose name's offset or whose value's size does not fit in 32 bits. -/
def checkSizes (offset : String → Nat) : List (String × Nat) → Except EncodeError Unit
  | [] => .ok ()
  | (name, size) :: sizes => do
    Quantity.stringTableLength.check (offset name)
    Quantity.valueLength.check size
    checkSizes offset sizes

/-- The string table and the items of a tree, if its sizes fit. -/
def flatten (f : Features) (root : Node) : Except EncodeError (StringTable × List Item) := do
  let table := stringTable f root
  checkSizes table.offset (storedSizes f root)
  return (table, items f table.offset root)

end Structure

end DeviceTree
