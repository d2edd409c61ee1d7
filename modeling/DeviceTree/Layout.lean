import DeviceTree.Bytes
import DeviceTree.Reservation
import DeviceTree.Version

/-!
# Where the blocks of a blob lie

After the header come, without gaps, the reservation map, the structure block and the string block. The map
starts at a multiple of eight, so the structure block does too.
-/

namespace DeviceTree

/-- The sizes of the blocks, before their places are known. -/
structure BlockSizes where
  /-- How many reservations there are. -/
  reservations : Nat
  /-- How many bytes the structure block takes. -/
  structureSize : Nat
  /-- How many bytes the string block takes. -/
  stringsSize : Nat
deriving DecidableEq, Repr

/-- The places of the blocks, from the start of the blob. -/
structure Layout where
  reservationsOffset : Nat
  structureOffset : Nat
  stringsOffset : Nat
  totalSize : Nat
deriving DecidableEq, Repr

/-- The layout of a blob of this version with blocks of these sizes. -/
def Layout.of (v : Version) (sizes : BlockSizes) : Layout :=
  let reservationsOffset := v.headerSize + padding 8 v.headerSize
  let structureOffset := reservationsOffset + (sizes.reservations + 1) * Reservation.entrySize
  let stringsOffset := structureOffset + sizes.structureSize
  { reservationsOffset, structureOffset, stringsOffset, totalSize := stringsOffset + sizes.stringsSize }

theorem Layout.structureOffset_mod (v : Version) (sizes : BlockSizes) :
    (Layout.of v sizes).structureOffset % 8 = 0 := by
  cases v <;> simp only [Layout.of, Version.headerSize, padding, Reservation.entrySize] <;> omega

end DeviceTree
