import DeviceTree.Text.Hex
import DeviceTree.Text.Quoted

/-!
# Why boot information cannot be written
-/

namespace DeviceTree

/-- A number of a blob that has to fit in 32 bits. -/
inductive Quantity where
  | valueLength
  | stringTableLength
  | reservationsOffset
  | structureOffset
  | stringsOffset
  | totalSize
  | stringsSize
deriving DecidableEq, Repr

/-- The quantity as messages name it. -/
def Quantity.name : Quantity → String
  | valueLength => "property value length"
  | stringTableLength => "string table length"
  | reservationsOffset => "off_mem_rsvmap"
  | structureOffset => "off_dt_struct"
  | stringsOffset => "off_dt_strings"
  | totalSize => "totalsize"
  | stringsSize => "size_dt_strings"

/-- Why boot information cannot be written. -/
inductive EncodeError where
  /-- There is no such version to write. -/
  | unknownVersion (version : UInt32)
  /-- A reservation of size zero would end the map. -/
  | emptyReservation (address : UInt64)
  /-- A name holds a character that its place in the blob cannot. -/
  | invalidName (name : String)
  /-- A number does not fit in 32 bits. -/
  | tooLarge (quantity : Quantity)
deriving DecidableEq, Repr

/-- The error as a line of text. -/
def EncodeError.message : EncodeError → String
  | unknownVersion version => "unknown device tree blob version " ++ toString version.toNat
  | emptyReservation address => "memory reservation at " ++ Hex.prefixed address.toNat ++ " has size 0"
  | invalidName name => "name " ++ Quoted.quote name ++ " cannot be stored in a blob"
  | tooLarge quantity => quantity.name ++ " exceeds u32"

end DeviceTree
