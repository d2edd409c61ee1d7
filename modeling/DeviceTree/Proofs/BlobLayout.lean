import DeviceTree.Proofs.StoredForm

/-!
# What the header says of a written blob

The layout is worked out from the sizes of the blocks before they are put together. It is that of the blob which
comes out: `Header.Describes` lists what the header then says, and what stands at the places it names. The one fact
about the bytes of the structure block that this needs is where it ends: runs of items that start at a multiple of
four bytes end at one (`EndsAligned`), node by node.

* `header_describes`: every blob that is written has a header that describes it.
-/

namespace DeviceTree

open BigEndian (word32)

namespace Structure

variable {f : Features} {offset : String → Nat}

/-- The run of items ends at a multiple of four bytes if it starts at one. -/
def EndsAligned (items : List Item) : Prop :=
  ∀ pos, pos % 4 = 0 → (pos + (bytesFrom pos items).length) % 4 = 0

theorem EndsAligned.nil : EndsAligned [] := fun _ h => h

theorem EndsAligned.append {xs ys : List Item} (hx : EndsAligned xs) (hy : EndsAligned ys) :
    EndsAligned (xs ++ ys) := fun pos h => by
  rw [bytesFrom_append, List.length_append, ← Nat.add_assoc]
  exact hy _ (hx pos h)

theorem EndsAligned.flatMap {α : Type} {l : List α} {g : α → List Item} (h : ∀ a ∈ l, EndsAligned (g a)) :
    EndsAligned (l.flatMap g) := by
  induction l with
  | nil => exact .nil
  | cons a l ih =>
    obtain ⟨ha, hl⟩ := List.forall_mem_cons.1 h
    exact ha.append (ih hl)

theorem endsAligned_endNode (label : Option String) : EndsAligned [.endNode label] := fun pos h => by
  rw [bytesFrom_endNode, BigEndian.length_word32]
  omega

theorem endsAligned_finish : EndsAligned [.finish] := fun pos h => by
  rw [bytesFrom_finish, BigEndian.length_word32]
  omega

/-- What is filled up ends aligned, wherever it starts. -/
theorem endsAligned_align (items : List Item) : EndsAligned (items ++ [.align 4]) := fun pos _ => by
  have hfill (pos : Nat) : (bytesFrom pos [.align 4]).length = padding 4 pos := by simp [bytesFrom, Item.bytesAt]
  rw [bytesFrom_append, List.length_append, hfill, ← Nat.add_assoc]
  exact add_padding_mod (by decide) _

theorem endsAligned_propertyItems (p : Property) : EndsAligned (propertyItems f offset p) := by
  have hsplit : propertyItems f offset p =
      [.property p.label, .word p.value.length, .word (offset p.name)] ++ valueAlignment f p.value.length ++
        [.data p.value] ++ [.align 4] := by
    rw [propertyItems, List.append_assoc _ [Item.data p.value]]
    rfl
  rw [hsplit]
  exact endsAligned_align _

theorem endsAligned_baseNameItems (n : Node) : EndsAligned (baseNameItems f offset n) := fun pos h => by
  -- the record of the base name is that of a property
  rw [bytesFrom_baseNameItems]
  exact EndsAligned.flatMap (fun p _ => endsAligned_propertyItems p) pos h

theorem endsAligned_openingItems (n : Node) : EndsAligned (openingItems f n) :=
  endsAligned_align [.beginNode n.label, .text (storedId f n)]

theorem endsAligned_recordItems (n : Node) :
    EndsAligned (n.properties.flatMap (propertyItems f offset) ++ baseNameItems f offset n) :=
  EndsAligned.append (.flatMap fun p _ => endsAligned_propertyItems p) (endsAligned_baseNameItems n)

theorem endsAligned_nodeItems (n : Node) : EndsAligned (nodeItems f offset n) := by
  induction n using Node.induction with
  | step n ih =>
    have hbody : EndsAligned (bodyItems f offset n) :=
      ((endsAligned_recordItems n).append (.flatMap ih)).append (endsAligned_endNode n.label)
    rw [nodeItems_eq_opening]
    exact (endsAligned_openingItems n).append hbody

/-- A structure block takes a whole number of words, the last of which is the token that ends it. -/
theorem blockBytes_items_end (root : Node) :
    4 ∣ (blockBytes (items f offset root)).length ∧
      ∃ front, blockBytes (items f offset root) = front ++ word32 Token.finish.word := by
  refine ⟨Nat.dvd_of_mod_eq_zero ?_, bytesFrom 0 (nodeItems f offset root), bytesFrom_append 0 _ _⟩
  have hend : EndsAligned (items f offset root) := (endsAligned_nodeItems root).append endsAligned_finish
  have hlength := hend 0 rfl
  rwa [Nat.zero_add] at hlength

end Structure

/-- The header says of the blob how large it is and where its blocks are, and there they are: what was written from
this boot information, with these settings, in this version. -/
structure Header.Describes (h : Header) (info : BootInfo) (s : Settings) (v : Version) (b : Bytes) : Prop where
  /-- The blob came out as large as its layout was worked out to be. -/
  size : b.length = (info.layout v).totalSize
  totalSize : h.totalSize.toNat = b.length
  version : h.version = s.version
  lastCompatible : h.lastCompatible = v.lastCompatible
  /-- The reservation map is at the next multiple of eight after the header. -/
  reservationsOffset : h.reservationsOffset.toNat = (v.headerSize + 7) / 8 * 8
  structureOffset : h.structureOffset.toNat = h.reservationsOffset.toNat + 16 * (info.reservations.length + 1)
  stringsOffset : h.structureOffset < h.stringsOffset ∧ h.stringsOffset ≤ h.totalSize
  bootCpuid : h.bootCpuid = if 2 ≤ s.version then some (s.bootCpuid.getD 0xFEEDBEEF) else none
  stringsSize : h.stringsSize = if 3 ≤ s.version then some (h.totalSize - h.stringsOffset) else none
  /-- Between the header and the reservation map there are zeros. -/
  gap : ∀ byte ∈ (b.take h.reservationsOffset.toNat).drop v.headerSize, byte = 0
  /-- The reservation map has the address and the size of each reservation, and ends with two zeros of that size. -/
  reservationMap : (h.blocks b).reservationMap =
    info.reservations.flatMap (fun r => BigEndian.encode 8 r.address.toNat ++ BigEndian.encode 8 r.size.toNat) ++
      List.replicate 16 0
  structureBlock : 4 ∣ (h.blocks b).structureBlock.length ∧
    ∃ front, (h.blocks b).structureBlock = front ++ word32 Token.finish.word
  stringBlock : (h.blocks b).stringBlock = (Structure.stringTable v.features info.root).toBytes

namespace BootInfo

variable {info : BootInfo} {s : Settings} {v : Version} {b : Bytes}

theorem reservationMap_eq (info : BootInfo) :
    info.reservationMap =
      info.reservations.flatMap (fun r => BigEndian.encode 8 r.address.toNat ++ BigEndian.encode 8 r.size.toNat) ++
        List.replicate 16 0 := by
  rw [reservationMap, List.flatMap_append]
  rfl

theorem headerSize_add_padding (v : Version) : v.headerSize + padding 8 v.headerSize = (v.headerSize + 7) / 8 * 8 := by
  cases v <;> rfl

/-- What lies between the header and the reservation map. -/
theorem gap_blobBytes (info : BootInfo) (v : Version) (bootCpuid : UInt32) :
    ((info.blobBytes v bootCpuid).take (info.layout v).reservationsOffset).drop v.headerSize =
      List.replicate (padding 8 v.headerSize) 0 := by
  have hheader := length_header info v bootCpuid
  have hoffset : (info.layout v).reservationsOffset = v.headerSize + padding 8 v.headerSize := rfl
  rw [blobBytes, blocks, hoffset, List.drop_take, ← hheader, List.drop_left, Nat.add_sub_cancel_left]
  simp only [List.append_assoc]
  exact List.take_left' List.length_replicate

/-- A blob that is written is as large as its header says and holds what the header says, where it says so. -/
theorem header_describes (hb : (info.toBlob s).result = .ok b) :
    ∃ v h, Version.ofNumber? s.version = some v ∧ Header.parse b = .ok h ∧ h.Describes info s v b := by
  obtain ⟨v, hv, hwritable, hfit, rfl⟩ := toBlob_eq_ok_iff.1 hb
  obtain ⟨hreservations, hstructure, hstrings, htotal⟩ := header_offsets s.blobCpuid hfit
  obtain ⟨-, hblock, hend⟩ := layout_offsets_le info v
  have hnonempty := length_structureBlock info v
  have hnumber := Version.number_of_ofNumber? hv
  have hblocks := blocks_blobBytes hfit s.blobCpuid
  have hle : (info.header v s.blobCpuid).stringsOffset ≤ (info.header v s.blobCpuid).totalSize := by
    rw [UInt32.le_iff_toNat_le, hstrings, htotal]
    omega
  refine ⟨v, info.header v s.blobCpuid, hv, (isHeader_blobBytes s.blobCpuid hfit).parse, ?_⟩
  refine
    { size := length_blobBytes info v s.blobCpuid
      totalSize := htotal.trans (length_blobBytes info v s.blobCpuid).symm
      version := hnumber
      lastCompatible := rfl
      reservationsOffset := hreservations.trans (headerSize_add_padding v)
      structureOffset := ?_
      stringsOffset := ⟨?_, hle⟩
      bootCpuid := ?_
      stringsSize := ?_
      gap := ?_
      reservationMap := by rw [hblocks, reservationMap_eq]
      structureBlock := by rw [hblocks]; exact Structure.blockBytes_items_end info.root
      stringBlock := by rw [hblocks]; rfl }
  · rw [hstructure, hreservations, ← reservationMap_end, length_reservationMap, Nat.mul_comm]
    rfl
  · rw [UInt32.lt_iff_toNat_lt, hstructure, hstrings]
    omega
  · rw [← hnumber]
    cases v <;> rfl
  · have hsize : UInt32.ofNat (info.stringTable v).size =
        (info.header v s.blobCpuid).totalSize - (info.header v s.blobCpuid).stringsOffset := by
      rw [← UInt32.toNat_inj, UInt32.toNat_sub_of_le _ _ hle, hstrings, htotal, ← hend, Nat.add_sub_cancel_left]
      have := hfit.total
      exact BigEndian.toNat_word (by omega)
    rw [← hnumber, ← hsize]
    cases v <;> rfl
  · rw [hreservations, gap_blobBytes]
    exact fun byte hbyte => List.eq_of_mem_replicate hbyte

theorem header_describes_sample :
    ∃ b v h, (sample.toBlob { version := 2, bootCpuid := some 7 }).result = .ok b ∧ Header.parse b = .ok h ∧
      h.Describes sample { version := 2, bootCpuid := some 7 } v b := by
  obtain ⟨b, hb⟩ : ∃ b, (sample.toBlob { version := 2, bootCpuid := some 7 }).result = .ok b := ⟨_, rfl⟩
  obtain ⟨v, h, -, hparse, hdescribes⟩ := header_describes hb
  exact ⟨b, v, h, hb, hparse, hdescribes⟩

end BootInfo

end DeviceTree
