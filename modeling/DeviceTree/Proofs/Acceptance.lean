import DeviceTree.Decode.Blob
import DeviceTree.Proofs.Header
import DeviceTree.Proofs.Tree

/-!
# Which blobs are read

The blob, its reservation map and the places of its blocks against the grammar, and with the header and the tree
all of `BootInfo.ofBlob`: it reads from bytes what the grammar says they hold, and nothing from any others.

* `ofBlob_eq_ok_iff`: what is read is what the bytes hold;
* `holds_unique`: bytes hold at most one boot information.
-/

namespace DeviceTree

open Format (WordAt)

theorem Reservation.toBytes_ofBytes {entry : Bytes} (h : entry.length = entrySize) :
    (ofBytes entry).toBytes = entry := by
  have hword (bs : Bytes) (hlen : bs.length = 8) :
      BigEndian.word64 (UInt64.ofNat (BigEndian.value bs)) = bs := by
    have hlt : BigEndian.value bs < 2 ^ 64 := by
      have := BigEndian.value_lt bs
      rw [hlen] at this
      exact this
    rw [BigEndian.word64, UInt64.toNat_ofNat_of_lt' hlt, ← hlen, BigEndian.encode_value]
  unfold entrySize at h
  rw [toBytes, ofBytes, hword _ (by rw [List.length_take]; omega), hword _ (by rw [List.length_drop]; omega),
    List.take_append_drop]

theorem readReservations_eq (c : Cursor) :
    readReservations c = c.take Reservation.entrySize >>= fun p =>
      if (Reservation.ofBytes p.1).size = 0 then .ok []
      else (readReservations p.2).map (Reservation.ofBytes p.1 :: ·) := by
  rw [readReservations]
  split
  · rename_i e he
    rw [he]
    rfl
  · rename_i entry next he
    rw [he]
    rfl

variable {base pos : Nat}

theorem readReservations_entry (r : Reservation) (rest : Bytes) :
    readReservations (.inBlock base pos (r.toBytes ++ rest)) =
      if r.size = 0 then .ok [] else (readReservations (.inBlock base (pos + 16) rest)).map (r :: ·) := by
  have ht : (Cursor.inBlock base pos (r.toBytes ++ rest)).take Reservation.entrySize =
      .ok (r.toBytes, .inBlock base (pos + 16) rest) :=
    Cursor.take_eq_ok_iff.2 ⟨rest, rfl, Reservation.length_toBytes r, rfl⟩
  rw [readReservations]
  split
  · rename_i e he
    rw [ht] at he
    cases he
  · rename_i entry next he
    rw [ht] at he
    obtain ⟨rfl, rfl⟩ := Prod.mk.inj (Except.ok.inj he)
    simp only [Reservation.ofBytes_toBytes]

/-- A reading of the map that does not fail begins with an entry. -/
theorem entry_of_readReservations {bs : Bytes} {rs : List Reservation}
    (h : readReservations (.inBlock base pos bs) = .ok rs) :
    ∃ (r : Reservation) (rest : Bytes), bs = r.toBytes ++ rest := by
  rw [readReservations] at h
  split at h
  · cases h
  · rename_i entry next ht
    obtain ⟨rest, rfl, hlen, -⟩ := Cursor.take_eq_ok_iff.1 ht
    exact ⟨Reservation.ofBytes entry, rest, by rw [Reservation.toBytes_ofBytes hlen]⟩

theorem readReservations_eq_ok_iff {bs : Bytes} {rs : List Reservation} :
    readReservations (.inBlock base pos bs) = .ok rs ↔ Format.IsReservationMap bs rs := by
  refine ⟨fun h => ?_, fun h => ?_⟩
  · induction hlen : bs.length using Nat.strongRecOn generalizing pos bs rs with
    | ind n ih =>
      obtain ⟨r, rest, rfl⟩ := entry_of_readReservations h
      rw [readReservations_entry] at h
      split at h
      · rename_i hr
        obtain rfl := Except.ok.inj h
        exact ⟨r, rest, by simp, nofun, hr⟩
      · rename_i hr
        obtain ⟨more, hmore, rfl⟩ := map_eq_ok_iff.1 h
        have hshort : rest.length < n := by
          rw [← hlen, List.length_append, Reservation.length_toBytes]
          exact Nat.lt_add_of_pos_left (by decide)
        obtain ⟨last, tail, rfl, hsizes, hlast⟩ := ih _ hshort hmore rfl
        exact ⟨last, tail, by simp, List.forall_mem_cons.2 ⟨hr, hsizes⟩, hlast⟩
  · obtain ⟨last, rest, rfl, hsizes, hlast⟩ := h
    induction rs generalizing pos with
    | nil =>
      have : readReservations (.inBlock base pos (last.toBytes ++ rest)) = _ := readReservations_entry last rest
      simpa [hlast] using this
    | cons r rs ih =>
      obtain ⟨hr, hsizes⟩ := List.forall_mem_cons.1 hsizes
      have hmap : (r :: rs ++ [last]).flatMap Reservation.toBytes ++ rest =
          r.toBytes ++ ((rs ++ [last]).flatMap Reservation.toBytes ++ rest) := by simp
      rw [hmap, readReservations_entry, if_neg hr, ih hsizes]
      rfl

/-! ## The blob -/

theorem readReservations_blockAt_eq_ok_iff {blob : Bytes} {offset : UInt32} {rs : List Reservation} :
    readReservations (blockAt blob offset) = .ok rs ↔ Format.IsReservationMap (blob.drop offset.toNat) rs :=
  @readReservations_eq_ok_iff offset.toNat 0 _ rs

theorem delimited_eq_ok_iff {bytes blob : Bytes} :
    delimited bytes = .ok blob ↔
      ∃ rest size, bytes = blob ++ rest ∧ WordAt blob 0 0xD00DFEED ∧ WordAt blob 4 size ∧
        size.toNat = blob.length ∧ 28 ≤ blob.length := by
  simp only [delimited, bind_eq_ok_iff, Header.checkMagic_eq_ok_iff, Header.checkTotalSize_eq_ok_iff]
  refine ⟨fun h => ?_, fun h => ?_⟩
  · obtain ⟨_, ⟨rfl, hmagic⟩, size, ⟨hword, hsize⟩, h⟩ := h
    split at h
    · rename_i rest hs
      obtain rfl := Except.ok.inj h
      obtain ⟨rfl, hlen⟩ := Bytes.split?_eq_some_iff.1 hs
      rw [← hlen] at hsize
      refine ⟨rest, size, rfl, ?_, ?_, hlen.symm, hsize⟩
      · exact (Format.wordAt_append_iff rest (by omega)).1 hmagic
      · exact (Format.wordAt_append_iff rest (by omega)).1 hword
    · cases h
  · obtain ⟨rest, size, rfl, hmagic, hword, hlen, hsize⟩ := h
    refine ⟨_, ⟨rfl, hmagic.append rest⟩, size, ⟨hword.append rest, by omega⟩, ?_⟩
    rw [hlen, Bytes.split?_append]
    rfl

theorem Format.IsHeader.length_le {blob : Bytes} {h : Header} (hh : Format.IsHeader blob h) : 28 ≤ blob.length := by
  have := hh.size
  split at this
  · exact this
  · split at this <;> omega

theorem Format.IsHeader.delimited {blob : Bytes} {h : Header} (hh : Format.IsHeader blob h) (rest : Bytes) :
    delimited (blob ++ rest) = .ok blob :=
  delimited_eq_ok_iff.2
    ⟨rest, h.totalSize, rfl, hh.magic.1 ▸ hh.magic.2, hh.totalSize.2, hh.totalSize.1, hh.length_le⟩

theorem Format.IsHeader.parse {blob : Bytes} {h : Header} (hh : Format.IsHeader blob h) :
    Header.parse blob = .ok h :=
  (Header.parse_eq_ok_iff fun _ hword => hword.unique hh.totalSize.2 ▸ hh.totalSize.1).2 hh

namespace Header

theorem require_eq_ok_iff {bound : Prop} [Decidable bound] {field : HeaderField} {u : Unit} :
    require bound field = .ok u ↔ bound := by
  unfold require
  split <;> simp [*]

theorem stringsEnd_eq {blob : Bytes} {h : Header} (hsize : h.totalSize.toNat = blob.length) :
    h.stringsEnd = Format.stringsEnd blob h := by
  unfold stringsEnd Format.stringsEnd
  cases h.stringsSize with
  | none => exact hsize
  | some size => rfl

theorem checkBounds_eq_ok_iff {blob : Bytes} {h : Header} (hsize : h.totalSize.toNat = blob.length) {u : Unit} :
    h.checkBounds = .ok u ↔
      h.reservationsOffset.toNat < blob.length ∧ h.structureOffset.toNat < blob.length ∧
        h.stringsOffset.toNat ≤ blob.length ∧ Format.stringsEnd blob h ≤ blob.length := by
  simp only [checkBounds, bind_eq_ok_iff, require_eq_ok_iff, UInt32.lt_iff_toNat_lt, UInt32.le_iff_toNat_le,
    hsize, stringsEnd_eq hsize, exists_and_left, exists_const]

end Header

namespace BootInfo

theorem result_ofBlob (bytes : Bytes) :
    (ofBlob bytes).result =
      delimited bytes >>= fun blob => Header.parse blob >>= fun h => h.checkBounds >>= fun _ =>
        readReservations (blockAt blob h.reservationsOffset) >>= fun reservations =>
          (BlockReader.readTree ⟨h.features, stringBlock blob h⟩ (blockAt blob h.structureOffset)).result >>=
            fun root => .ok { root, reservations } := by
  unfold ofBlob
  simp only [Outcome.result_bind]
  rfl

theorem ofBlob_eq_ok_iff {bytes : Bytes} {info : BootInfo} :
    (ofBlob bytes).result = .ok info ↔ Format.Holds bytes info := by
  have hreads (blob : Bytes) (header : Header) (hsize : header.totalSize.toNat = blob.length) :
      BlockReader.Reads ⟨header.features, stringBlock blob header⟩
        ⟨header.version, (blob.take (Format.stringsEnd blob header)).drop header.stringsOffset.toNat⟩ :=
    ⟨rfl, by rw [← Header.stringsEnd_eq hsize]; rfl⟩
  rw [result_ofBlob]
  refine ⟨fun h => ?_, fun h => ?_⟩
  · obtain ⟨blob, hblob, h⟩ := bind_eq_ok_iff.1 h
    obtain ⟨header, hheader, h⟩ := bind_eq_ok_iff.1 h
    obtain ⟨_, hbounds, h⟩ := bind_eq_ok_iff.1 h
    obtain ⟨reservations, hreservations, h⟩ := bind_eq_ok_iff.1 h
    obtain ⟨root, hroot, h⟩ := bind_eq_ok_iff.1 h
    obtain rfl := Except.ok.inj h
    obtain ⟨rest, size, rfl, -, hword, hsize, -⟩ := delimited_eq_ok_iff.1 hblob
    have hheader := (Header.parse_eq_ok_iff fun size' hword' => hword'.unique hword ▸ hsize).1 hheader
    have htotal := hheader.totalSize.1
    obtain ⟨hr, hs, hst, hend⟩ := (Header.checkBounds_eq_ok_iff htotal).1 hbounds
    exact ⟨blob, rest, rfl, header, hheader, hr, hs, hst, hend, readReservations_blockAt_eq_ok_iff.1 hreservations,
      (BlockReader.readTree_eq_ok_iff (hreads blob header htotal)).1 hroot⟩
  · obtain ⟨blob, rest, rfl, header, hheader, hr, hs, hst, hend, hreservations, htree⟩ := h
    have htotal := hheader.totalSize.1
    have hbounds : header.checkBounds = .ok () := (Header.checkBounds_eq_ok_iff htotal).2 ⟨hr, hs, hst, hend⟩
    have hmap : readReservations (blockAt blob header.reservationsOffset) = .ok info.reservations :=
      readReservations_blockAt_eq_ok_iff.2 hreservations
    have hroot : (BlockReader.readTree ⟨header.features, stringBlock blob header⟩
        (blockAt blob header.structureOffset)).result = .ok info.root :=
      (BlockReader.readTree_eq_ok_iff (hreads blob header htotal)).2 htree
    refine bind_eq_ok_iff.2 ⟨blob, hheader.delimited rest, ?_⟩
    refine bind_eq_ok_iff.2 ⟨header, hheader.parse, ?_⟩
    refine bind_eq_ok_iff.2 ⟨(), hbounds, ?_⟩
    refine bind_eq_ok_iff.2 ⟨_, hmap, ?_⟩
    exact bind_eq_ok_iff.2 ⟨_, hroot, rfl⟩

end BootInfo

theorem Format.holds_unique {bytes : Bytes} {a b : BootInfo} (ha : Format.Holds bytes a)
    (hb : Format.Holds bytes b) : a = b := by
  have := BootInfo.ofBlob_eq_ok_iff.2 ha
  rw [BootInfo.ofBlob_eq_ok_iff.2 hb] at this
  exact (Except.ok.inj this).symm

/-- The blobs that are read are those of the format, each with the one boot information that it holds. -/
theorem BootInfo.ofBlob_accepts_exactly (bytes : Bytes) (info : BootInfo) :
    ((ofBlob bytes).result = .ok info ↔ Format.Holds bytes info) ∧
      (Format.Holds bytes info → ∀ other, Format.Holds bytes other → other = info) :=
  ⟨ofBlob_eq_ok_iff, fun h _ hother => Format.holds_unique hother h⟩

end DeviceTree
