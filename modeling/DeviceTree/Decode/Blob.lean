import DeviceTree.BootInfo
import DeviceTree.Decode.Structure

/-!
# Reading a blob

The magic number and the total size come first, then the rest of the header, then the places of the blocks,
the reservation map and the tree. The first fault in this order is the one reported. Bytes after the total size
do not count.
-/

namespace DeviceTree

/-- The reservations of the map at the cursor, up to an entry of size zero. -/
def readReservations (c : Cursor) : Except DecodeError (List Reservation) :=
  match _ht : c.take Reservation.entrySize with
  | .error e => .error e
  | .ok (entry, next) =>
    let r := Reservation.ofBytes entry
    if r.size = 0 then .ok [] else (readReservations next).map (r :: ·)
termination_by c.rest.length
decreasing_by
  have hrest := Cursor.take_rest _ht
  have hlen : entry.length = 16 := hrest.2.1
  rw [hrest.1, List.length_append]
  omega

namespace Header

/-- Refuses a field that breaks its bound. -/
def require (bound : Prop) [Decidable bound] (field : HeaderField) : Except DecodeError Unit :=
  if bound then .ok () else .error ⟨.offsetOutOfBounds field, field.position⟩

/-- The end of the string block. Before version 3 it is the end of the blob. -/
def stringsEnd (h : Header) : Nat :=
  match h.stringsSize with
  | some size => h.stringsOffset.toNat + size.toNat
  | none => h.totalSize.toNat

/-- Refuses a header with a block that does not lie in the blob. -/
def checkBounds (h : Header) : Except DecodeError Unit := do
  require (h.reservationsOffset < h.totalSize) .reservationsOffset
  require (h.structureOffset < h.totalSize) .structureOffset
  require (h.stringsOffset ≤ h.totalSize) .stringsOffset
  require (h.stringsEnd ≤ h.totalSize.toNat) .stringsSize

end Header

/-- The bytes of the blob at the start of `bytes`, as many as its total size says. -/
def delimited (bytes : Bytes) : Except DecodeError Bytes := do
  let _ ← Header.checkMagic bytes
  let size ← Header.checkTotalSize bytes
  match bytes.split? size.toNat with
  | some (blob, _) => return blob
  | none => throw ⟨.truncated, bytes.length⟩

/-- The cursor at the start of the block that runs from `offset` to the end of the blob. -/
def blockAt (blob : Bytes) (offset : UInt32) : Cursor :=
  .start offset.toNat (blob.drop offset.toNat)

/-- The string block of a blob. -/
def stringBlock (blob : Bytes) (h : Header) : StringBlock :=
  ⟨h.stringsOffset.toNat, (blob.take h.stringsEnd).drop h.stringsOffset.toNat⟩

/-- Reads the boot information of a blob. -/
def BootInfo.ofBlob (bytes : Bytes) : Outcome DecodeError BootInfo := do
  let blob ← delimited bytes
  let h ← Header.parse blob
  Outcome.note (.reading h)
  h.checkBounds
  let reservations ← readReservations (blockAt blob h.reservationsOffset)
  let reader : BlockReader := ⟨h.features, stringBlock blob h⟩
  let root ← reader.readTree (blockAt blob h.structureOffset)
  return { root, reservations }

end DeviceTree
