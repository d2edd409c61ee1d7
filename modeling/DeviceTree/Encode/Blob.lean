import DeviceTree.Encode.Check
import DeviceTree.Layout
import DeviceTree.Notice

/-!
# Writing a blob

A blob is the header, padded to a multiple of eight, the reservation map, the structure block and the string
block.
-/

namespace DeviceTree

namespace Layout

/-- Refuses a layout with a number that does not fit in 32 bits. -/
def check (l : Layout) (v : Version) (sizes : BlockSizes) : Except EncodeError Unit := do
  Quantity.reservationsOffset.check l.reservationsOffset
  Quantity.structureOffset.check l.structureOffset
  Quantity.stringsOffset.check l.stringsOffset
  Quantity.totalSize.check l.totalSize
  if v.features.stringsSize then Quantity.stringsSize.check sizes.stringsSize

/-- The header of a blob with this layout. -/
def header (l : Layout) (v : Version) (sizes : BlockSizes) (bootCpuid : UInt32) : Header where
  magic := Header.magicNumber
  totalSize := UInt32.ofNat l.totalSize
  structureOffset := UInt32.ofNat l.structureOffset
  stringsOffset := UInt32.ofNat l.stringsOffset
  reservationsOffset := UInt32.ofNat l.reservationsOffset
  version := v.number
  lastCompatible := v.lastCompatible
  bootCpuid := if v.features.bootCpuid then some bootCpuid else none
  stringsSize := if v.features.stringsSize then some (UInt32.ofNat sizes.stringsSize) else none

end Layout

namespace BootInfo

/-- The reservation map: an entry for each reservation, then the one that ends it. -/
def reservationMap (info : BootInfo) : Bytes :=
  (info.reservations ++ [Reservation.terminator]).flatMap Reservation.toBytes

/-- The boot information as a blob. -/
def toBlob (info : BootInfo) (s : Settings) : Outcome EncodeError Bytes := do
  let v ← info.checkedVersion s
  let (table, items) ← Structure.flatten v.features info.root
  let block := Structure.blockBytes items
  let sizes : BlockSizes := ⟨info.reservations.length, block.length, table.size⟩
  let layout := Layout.of v sizes
  layout.check v sizes
  Outcome.note (.flattened v sizes.reservations sizes.structureSize sizes.stringsSize)
  return (layout.header v sizes s.blobCpuid).toBytes ++ List.replicate (padding 8 v.headerSize) 0 ++
    info.reservationMap ++ block ++ table.toBytes

end BootInfo

end DeviceTree
