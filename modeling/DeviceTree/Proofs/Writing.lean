import DeviceTree.Encode.Blob
import DeviceTree.Proofs.Flatten
import DeviceTree.Proofs.Header

/-!
# What is written

A blob is written just when the version is known, the boot information is `Writable`, and its sizes fit
(`toBlob_eq_ok_iff`); it then is `blobBytes`. The blocks follow one another in it as the layout says.
-/

namespace DeviceTree

/-- Nothing of the boot information would end a map, a name or a step of a path too early. -/
structure BootInfo.Writable (info : BootInfo) : Prop where
  sizes : ∀ r ∈ info.reservations, r.size ≠ 0
  names : ∀ n ∈ info.root.preorder, '\x00' ∉ n.name.toList ∧ '/' ∉ n.name.toList
  properties : ∀ n ∈ info.root.preorder, ∀ p ∈ n.properties, '\x00' ∉ p.name.toList

theorem Node.unwritableName?_eq_none_iff {n : Node} :
    n.unwritableName? = none ↔
      ('\x00' ∉ n.name.toList ∧ '/' ∉ n.name.toList) ∧ ∀ p ∈ n.properties, '\x00' ∉ p.name.toList := by
  unfold unwritableName?
  split
  · rename_i h
    simp only [reduceCtorEq, false_iff, not_and]
    intro hn
    simp only [List.any_eq_true, Bool.or_eq_true, beq_iff_eq] at h
    obtain ⟨c, hc, rfl | rfl⟩ := h
    · exact absurd hc hn.1
    · exact absurd hc hn.2
  · rename_i h
    have hn : '\x00' ∉ n.name.toList ∧ '/' ∉ n.name.toList := by
      simp only [List.any_eq_true, Bool.or_eq_true, beq_iff_eq, not_exists, not_and, not_or] at h
      exact ⟨fun hc => (h _ hc).1 rfl, fun hc => (h _ hc).2 rfl⟩
    simp [hn]

theorem BootInfo.checkWritable_eq_ok_iff {info : BootInfo} {u : Unit} :
    info.checkWritable = .ok u ↔ info.Writable := by
  unfold checkWritable
  split
  · rename_i r hr
    simp only [reduceCtorEq, false_iff]
    intro h
    have := List.find?_some hr
    exact h.sizes r (List.mem_of_find?_eq_some hr) (beq_iff_eq.1 this)
  · rename_i hr
    split
    · rename_i name hname
      simp only [reduceCtorEq, false_iff]
      intro h
      obtain ⟨n, hn, hname⟩ := List.exists_of_findSome?_eq_some hname
      rw [Node.unwritableName?_eq_none_iff.2 ⟨h.names n hn, h.properties n hn⟩] at hname
      cases hname
    · rename_i hname
      simp only [true_iff]
      rw [List.findSome?_eq_none_iff] at hname
      refine ⟨fun r hmem hsize => ?_, fun n hn => (Node.unwritableName?_eq_none_iff.1 (hname n hn)).1,
        fun n hn => (Node.unwritableName?_eq_none_iff.1 (hname n hn)).2⟩
      exact absurd (beq_iff_eq.2 hsize) (by simpa using List.find?_eq_none.1 hr r hmem)

theorem Quantity.check_eq_ok_iff {q : Quantity} {n : Nat} {u : Unit} : q.check n = .ok u ↔ n < 0x100000000 := by
  unfold check
  refine ⟨fun h => Decidable.by_contra fun hn => ?_, fun h => if_pos h⟩
  rw [if_neg hn] at h
  cases h

theorem Structure.checkSizes_eq_ok_iff {offset : String → Nat} {sizes : List (String × Nat)} {u : Unit} :
    checkSizes offset sizes = .ok u ↔ ∀ q ∈ sizes, offset q.1 < 0x100000000 ∧ q.2 < 0x100000000 := by
  induction sizes with
  | nil => simp [checkSizes]
  | cons q sizes ih =>
    obtain ⟨name, size⟩ := q
    simp only [checkSizes, bind_eq_ok_iff, Quantity.check_eq_ok_iff, ih, List.forall_mem_cons,
      exists_and_left, exists_const, and_assoc]

/-- In every property record the name's offset and the value's size fit in 32 bits. -/
def Structure.RecordsFit (f : Features) (root : Node) : Prop :=
  ∀ q ∈ storedSizes f root, (stringTable f root).offset q.1 < 0x100000000 ∧ q.2 < 0x100000000

theorem Structure.flatten_eq_ok_iff {f : Features} {root : Node} {table : StringTable} {items : List Item} :
    flatten f root = .ok (table, items) ↔
      RecordsFit f root ∧ table = stringTable f root ∧ items = Structure.items f table.offset root := by
  unfold flatten RecordsFit
  simp only [bind_eq_ok_iff, checkSizes_eq_ok_iff, exists_and_left, exists_const]
  refine and_congr_right fun _ => ⟨fun h => ?_, fun h => ?_⟩
  · obtain ⟨rfl, rfl⟩ := Prod.mk.inj (Except.ok.inj h)
    exact ⟨rfl, rfl⟩
  · rw [h.2, h.1]
    rfl

/-- The blocks come one after the other, the first with at least the entry that ends it. -/
theorem Layout.offsets_le (v : Version) (sizes : BlockSizes) :
    (Layout.of v sizes).reservationsOffset + 16 ≤ (Layout.of v sizes).structureOffset ∧
      (Layout.of v sizes).structureOffset + sizes.structureSize = (Layout.of v sizes).stringsOffset ∧
      (Layout.of v sizes).stringsOffset + sizes.stringsSize = (Layout.of v sizes).totalSize := by
  refine ⟨?_, rfl, rfl⟩
  simp only [Layout.of, Reservation.entrySize]
  omega

theorem Layout.check_eq_ok_iff {v : Version} {sizes : BlockSizes} {u : Unit} :
    (Layout.of v sizes).check v sizes = .ok u ↔ (Layout.of v sizes).totalSize < 0x100000000 := by
  obtain ⟨hreservations, hstructure, hstrings⟩ := Layout.offsets_le v sizes
  unfold check
  simp only [bind_eq_ok_iff, Quantity.check_eq_ok_iff, exists_and_left, exists_const]
  split
  · rw [Quantity.check_eq_ok_iff]
    omega
  · refine ⟨fun h => h.2.2.2.1, fun h => ⟨by omega, by omega, by omega, h, rfl⟩⟩

namespace BootInfo

variable (info : BootInfo) (v : Version)

/-- The string table of the tree. -/
def stringTable : StringTable :=
  Structure.stringTable v.features info.root

/-- The structure block. -/
def structureBlock : Bytes :=
  Structure.blockBytes (Structure.items v.features (info.stringTable v).offset info.root)

/-- How much there is in each block. -/
def blockSizes : BlockSizes :=
  ⟨info.reservations.length, (info.structureBlock v).length, (info.stringTable v).size⟩

/-- Where the blocks lie. -/
def layout : Layout :=
  .of v (info.blockSizes v)

/-- The header. -/
def header (bootCpuid : UInt32) : Header :=
  (info.layout v).header v (info.blockSizes v) bootCpuid

/-- The blocks behind the header, with the padding before them. -/
def blocks : Bytes :=
  List.replicate (padding 8 v.headerSize) 0 ++ info.reservationMap ++ info.structureBlock v ++
    (info.stringTable v).toBytes

/-- The blob that is written. -/
def blobBytes (bootCpuid : UInt32) : Bytes :=
  (info.header v bootCpuid).toBytes ++ info.blocks v

/-- Every size and offset fits in 32 bits. -/
structure SizesFit : Prop where
  records : Structure.RecordsFit v.features info.root
  total : (info.layout v).totalSize < 0x100000000

variable {info v}

theorem checkedVersion_eq_ok_iff {s : Settings} :
    info.checkedVersion s = .ok v ↔ Version.ofNumber? s.version = some v ∧ info.Writable := by
  unfold checkedVersion
  cases Version.ofNumber? s.version with
  | none => simp
  | some v' =>
    rw [← checkWritable_eq_ok_iff (u := ())]
    cases info.checkWritable <;> simp [Except.map]

theorem toBlob_eq_ok_iff {s : Settings} {b : Bytes} :
    (info.toBlob s).result = .ok b ↔
      ∃ v, Version.ofNumber? s.version = some v ∧ info.Writable ∧ info.SizesFit v ∧
        b = info.blobBytes v s.blobCpuid := by
  unfold toBlob
  simp only [Outcome.result_bind]
  refine ⟨fun h => ?_, fun h => ?_⟩
  · obtain ⟨v, hv, h⟩ := bind_eq_ok_iff.1 h
    obtain ⟨⟨table, items⟩, hflat, h⟩ := bind_eq_ok_iff.1 h
    obtain ⟨hrecords, rfl, rfl⟩ := Structure.flatten_eq_ok_iff.1 hflat
    obtain ⟨_, hlayout, h⟩ := bind_eq_ok_iff.1 h
    obtain ⟨_, -, h⟩ := bind_eq_ok_iff.1 h
    obtain rfl := Except.ok.inj h
    obtain ⟨hv, hwritable⟩ := checkedVersion_eq_ok_iff.1 hv
    refine ⟨v, hv, hwritable, ⟨hrecords, Layout.check_eq_ok_iff.1 hlayout⟩, ?_⟩
    simp only [blobBytes, blocks, List.append_assoc]
    rfl
  · obtain ⟨v, hv, hwritable, hfit, rfl⟩ := h
    have hflat : Structure.flatten v.features info.root = .ok (info.stringTable v, _) :=
      Structure.flatten_eq_ok_iff.2 ⟨hfit.records, rfl, rfl⟩
    have hlayout : (info.layout v).check v (info.blockSizes v) = .ok () := Layout.check_eq_ok_iff.2 hfit.total
    refine bind_eq_ok_iff.2 ⟨v, checkedVersion_eq_ok_iff.2 ⟨hv, hwritable⟩, ?_⟩
    refine bind_eq_ok_iff.2 ⟨_, hflat, ?_⟩
    refine bind_eq_ok_iff.2 ⟨(), hlayout, ?_⟩
    refine bind_eq_ok_iff.2 ⟨(), rfl, ?_⟩
    simp only [blobBytes, blocks, ← List.append_assoc]
    rfl

/-! ## Where the blocks are -/

theorem length_header (info : BootInfo) (v : Version) (bootCpuid : UInt32) :
    (info.header v bootCpuid).toBytes.length = v.headerSize := by
  unfold Header.toBytes header Layout.header
  cases v <;> rfl

theorem length_structureBlock (info : BootInfo) (v : Version) : 4 ≤ (info.structureBlock v).length := by
  rw [structureBlock, Structure.blockBytes, Structure.items, Structure.bytesFrom_append, List.length_append]
  exact Nat.le_add_left 4 _

theorem length_reservationMap (info : BootInfo) :
    info.reservationMap.length = (info.reservations.length + 1) * Reservation.entrySize := by
  rw [reservationMap, Reservation.length_flatMap_toBytes, List.length_append, List.length_singleton]

variable (info v) (bootCpuid : UInt32)

theorem length_blobBytes : (info.blobBytes v bootCpuid).length = (info.layout v).totalSize := by
  simp only [blobBytes, blocks, List.length_append, length_header, List.length_replicate,
    length_reservationMap, StringTable.length_toBytes, layout, blockSizes, Layout.of]
  omega

theorem layout_offsets_le :
    (info.layout v).reservationsOffset + 16 ≤ (info.layout v).structureOffset ∧
      (info.layout v).structureOffset + (info.structureBlock v).length = (info.layout v).stringsOffset ∧
      (info.layout v).stringsOffset + (info.stringTable v).size = (info.layout v).totalSize :=
  Layout.offsets_le v (info.blockSizes v)

theorem drop_reservationsOffset :
    (info.blobBytes v bootCpuid).drop (info.layout v).reservationsOffset =
      info.reservationMap ++ (info.structureBlock v ++ (info.stringTable v).toBytes) := by
  have hlen : ((info.header v bootCpuid).toBytes ++ List.replicate (padding 8 v.headerSize) 0).length =
      (info.layout v).reservationsOffset := by
    rw [List.length_append, length_header, List.length_replicate]
    rfl
  rw [blobBytes, blocks, ← hlen]
  simp only [List.append_assoc]
  rw [← List.append_assoc, List.drop_left]

theorem reservationMap_end :
    (info.layout v).reservationsOffset + info.reservationMap.length = (info.layout v).structureOffset := by
  rw [length_reservationMap]
  rfl

theorem drop_structureOffset :
    (info.blobBytes v bootCpuid).drop (info.layout v).structureOffset =
      info.structureBlock v ++ (info.stringTable v).toBytes := by
  rw [← reservationMap_end, ← List.drop_drop, drop_reservationsOffset, List.drop_left]

theorem drop_stringsOffset :
    (info.blobBytes v bootCpuid).drop (info.layout v).stringsOffset = (info.stringTable v).toBytes := by
  rw [← (layout_offsets_le info v).2.1, ← List.drop_drop, drop_structureOffset, List.drop_left]

variable {info v}

/-- The header has the places of the blocks, none cut off at 32 bits. -/
theorem header_offsets (hfit : info.SizesFit v) :
    (info.header v bootCpuid).reservationsOffset.toNat = (info.layout v).reservationsOffset ∧
      (info.header v bootCpuid).structureOffset.toNat = (info.layout v).structureOffset ∧
      (info.header v bootCpuid).stringsOffset.toNat = (info.layout v).stringsOffset ∧
      (info.header v bootCpuid).totalSize.toNat = (info.layout v).totalSize := by
  obtain ⟨hreservations, hstructure, hstrings⟩ := layout_offsets_le info v
  have htotal := hfit.total
  exact ⟨BigEndian.toNat_word (by omega), BigEndian.toNat_word (by omega), BigEndian.toNat_word (by omega),
    BigEndian.toNat_word htotal⟩

theorem isHeader_blobBytes (hfit : info.SizesFit v) :
    Format.IsHeader (info.blobBytes v bootCpuid) (info.header v bootCpuid) := by
  refine Header.isHeader_toBytes rfl ?_ ?_ ?_
  · rw [(header_offsets bootCpuid hfit).2.2.2, ← length_blobBytes info v bootCpuid, blobBytes]
  · cases v <;> rfl
  · cases v <;> rfl

theorem stringsEnd_blobBytes (hfit : info.SizesFit v) :
    Format.stringsEnd (info.blobBytes v bootCpuid) (info.header v bootCpuid) =
      (info.blobBytes v bootCpuid).length := by
  have hend := (layout_offsets_le info v).2.2
  have htotal : (info.layout v).totalSize < 0x100000000 := hfit.total
  have hsome : (UInt32.ofNat (info.layout v).stringsOffset).toNat + (UInt32.ofNat (info.stringTable v).size).toNat =
      (info.blobBytes v bootCpuid).length := by
    rw [BigEndian.toNat_word (by omega), BigEndian.toNat_word (by omega), length_blobBytes, hend]
  cases v with
  | v1 => rfl
  | v2 => rfl
  | v3 => exact hsome
  | v16 => exact hsome

/-- The blocks are where a reader looks for them. -/
theorem bounds_blobBytes (hfit : info.SizesFit v) :
    (info.header v bootCpuid).reservationsOffset.toNat < (info.blobBytes v bootCpuid).length ∧
      (info.header v bootCpuid).structureOffset.toNat < (info.blobBytes v bootCpuid).length ∧
      (info.header v bootCpuid).stringsOffset.toNat ≤ (info.blobBytes v bootCpuid).length ∧
      Format.stringsEnd (info.blobBytes v bootCpuid) (info.header v bootCpuid) ≤
        (info.blobBytes v bootCpuid).length := by
  obtain ⟨hreservations, hstructure, hstrings⟩ := layout_offsets_le info v
  have hblock := length_structureBlock info v
  obtain ⟨hr, hs, hst, -⟩ := header_offsets bootCpuid hfit
  rw [hr, hs, hst, stringsEnd_blobBytes bootCpuid hfit, length_blobBytes]
  omega

end BootInfo
end DeviceTree
