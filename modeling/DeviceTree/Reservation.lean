import DeviceTree.Bytes.BigEndian

/-!
# Memory reservations

A reservation keeps a region of memory from general use. In a blob it is an entry of two 64-bit words, its
address and its size, and an entry of size zero ends the map.
-/

namespace DeviceTree

/-- A region of physical memory that is not free for general use. -/
structure Reservation where
  address : UInt64
  size : UInt64
deriving DecidableEq, Repr

namespace Reservation

/-- How many bytes an entry of the reservation map takes. -/
def entrySize : Nat := 16

/-- The entry that ends the reservation map. -/
def terminator : Reservation := ⟨0, 0⟩

/-- The entry for a reservation. -/
def toBytes (r : Reservation) : Bytes :=
  BigEndian.word64 r.address ++ BigEndian.word64 r.size

/-- The reservation of an entry. -/
def ofBytes (entry : Bytes) : Reservation where
  address := UInt64.ofNat (BigEndian.value (entry.take 8))
  size := UInt64.ofNat (BigEndian.value (entry.drop 8))

@[simp] theorem length_toBytes (r : Reservation) : r.toBytes.length = entrySize := by
  simp [toBytes, entrySize]

theorem length_flatMap_toBytes (rs : List Reservation) : (rs.flatMap toBytes).length = rs.length * entrySize := by
  rw [List.length_flatMap]
  simp only [length_toBytes, List.map_const', List.sum_replicate_nat]

theorem ofBytes_toBytes (r : Reservation) : ofBytes r.toBytes = r := by
  have hv (w : UInt64) : UInt64.ofNat (BigEndian.value (BigEndian.word64 w)) = w :=
    UInt64.toNat_inj.1 (by simp [BigEndian.word64, BigEndian.value_encode, BigEndian.limit])
  have h8 : (BigEndian.word64 r.address).length = 8 := BigEndian.length_word64 _
  rw [ofBytes, toBytes, List.take_left' h8, List.drop_left' h8, hv, hv]

end Reservation

end DeviceTree
