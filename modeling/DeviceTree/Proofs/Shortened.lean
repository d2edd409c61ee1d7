import DeviceTree.Decode.Damage
import DeviceTree.Proofs.Delivery
import DeviceTree.Proofs.FoundNames

/-!
# Blobs that are cut short

A blob whose total size is that of its front no longer has room for its string block. From version 3 on, the header
says so. Before, nothing does but the names: the last one has lost its NUL (`StringTable.exists_lost_name`), and some
property refers to it, so a reading would have to find a name that is not there (`not_findsAll_of_cut`).

* `shortened_never_read`: no blob that was written is read once it is cut short.
-/

namespace DeviceTree

open BigEndian (word32)
open Format (WordAt)

/-- The bytes say that there are `n` of them, and are those of the blob otherwise, as far as they count. -/
structure Format.Resized (b : Bytes) (n : Nat) (bytes : Bytes) : Prop where
  size : WordAt bytes 4 (.ofNat n)
  rest : (bytes.take n).drop 8 = (b.take n).drop 8

namespace Damage

variable {b : Bytes} {n : Nat}

theorem overwrite_eq {offset : Nat} {patch : Bytes} (h : offset + patch.length ≤ b.length) :
    overwrite b offset patch = b.take offset ++ (patch ++ b.drop (offset + patch.length)) := by
  rw [overwrite, if_pos h, List.append_assoc]

theorem drop_overwrite {offset : Nat} {patch : Bytes} (h : offset + patch.length ≤ b.length) :
    (overwrite b offset patch).drop offset = patch ++ b.drop (offset + patch.length) := by
  rw [overwrite_eq h]
  exact List.drop_left' (by rw [List.length_take]; omega)

theorem resized_overwrite (h : 8 ≤ b.length) : Format.Resized b n (overwrite b 4 (BigEndian.encode 4 n)) := by
  have hdrop : (overwrite b 4 (BigEndian.encode 4 n)).drop 4 = BigEndian.encode 4 n ++ b.drop (4 + 4) :=
    drop_overwrite h
  refine ⟨⟨b.drop 8, by rw [hdrop, BigEndian.word32_ofNat]⟩, ?_⟩
  have hrest : (overwrite b 4 (BigEndian.encode 4 n)).drop 8 = b.drop 8 := by
    rw [← List.drop_drop (i := 4) (j := 4), hdrop]
    exact List.drop_left' (BigEndian.length_encode 4 n)
  rw [List.drop_take, List.drop_take, hrest]

theorem resized_cut (h : 8 ≤ n) (hn : n ≤ b.length) : Format.Resized b n (cut b true n) := by
  have hlen : 8 ≤ (b.take n).length := by
    rw [List.length_take]
    omega
  obtain ⟨hsize, hrest⟩ : Format.Resized (b.take n) n (cut b true n) := resized_overwrite hlen
  exact ⟨hsize, by rw [hrest, List.take_take, Nat.min_self]⟩

end Damage

namespace Format

variable {b blob rest : Bytes} {n : Nat} {h h' : Header}

/-- What starts with a blob under another total size starts with that many bytes. -/
theorem Resized.drop (hres : Resized b n (blob ++ rest)) (hheader : IsHeader blob h) (hn : n < 0x100000000) :
    blob.length = n ∧ ∀ place, 8 ≤ place → blob.drop place = (b.take n).drop place := by
  have hsize : h.totalSize = .ofNat n :=
    hheader.totalSize.2.unique ((wordAt_append_iff rest hheader.totalSize.2.le_length).1 hres.size)
  have hlen : blob.length = n := by
    rw [← hheader.totalSize.1, hsize, BigEndian.toNat_word hn]
  refine ⟨hlen, fun place hplace => ?_⟩
  have hrest := hres.rest
  rw [List.take_left' hlen] at hrest
  rw [← Nat.add_sub_cancel' hplace, ← List.drop_drop, hrest, List.drop_drop]

/-- Under another total size, a header says the same of everything else. -/
theorem Resized.header (hres : Resized b n (blob ++ rest)) (hheader : IsHeader blob h) (hheader' : IsHeader b h')
    (hn : n < 0x100000000) :
    h.version = h'.version ∧ h.structureOffset = h'.structureOffset ∧ h.stringsOffset = h'.stringsOffset ∧
      h.stringsSize = h'.stringsSize := by
  obtain ⟨-, hdrop⟩ := hres.drop hheader hn
  have hfield {place : Nat} {w w' : UInt32} (hplace : 8 ≤ place) (hw : WordAt blob place w)
      (hw' : WordAt b place w') : w = w' := by
    have hw : WordAt (b.take n) place w := by
      unfold WordAt at hw ⊢
      rwa [hdrop place hplace] at hw
    exact hw.of_take.unique hw'
  have hversion := hfield (by decide) hheader.version hheader'.version
  refine ⟨hversion, hfield (by decide) hheader.structureOffset hheader'.structureOffset,
    hfield (by decide) hheader.stringsOffset hheader'.stringsOffset, ?_⟩
  have hsize := hheader.stringsSize
  have hsize' := hheader'.stringsSize
  rw [hversion] at hsize
  split at hsize
  · rename_i h3
    rw [if_pos h3] at hsize'
    obtain ⟨size, hsome, hw⟩ := hsize
    obtain ⟨size', hsome', hw'⟩ := hsize'
    rw [hsome, hsome', hfield (by decide) hw hw']
  · rename_i h3
    rw [if_neg h3] at hsize'
    rw [hsize, hsize']

/-- No proper front of a blob is one. -/
theorem IsHeader.ofBlob_take (hheader : IsHeader b h) (hn : n < b.length) :
    (BootInfo.ofBlob (b.take n)).result = .error ⟨.truncated, n⟩ := by
  have hlen : (b.take n).length = n := by
    rw [List.length_take]
    omega
  have hword {place : Nat} {w w' : UInt32} (hw : WordAt b place w) (hw' : WordAt (b.take n) place w') : w' = w :=
    hw'.of_take.unique hw
  have hsecond (magic size : UInt32) (rest : Bytes) : WordAt (word32 magic ++ (word32 size ++ rest)) 4 size :=
    ⟨rest, List.drop_left' (BigEndian.length_word32 magic)⟩
  rcases lacking_or_sufficient (b.take n) with ⟨hlt, -⟩ | ⟨-, henough⟩
  · rw [BootInfo.ofBlob_of_lt_wanted hlt, hlen]
    rfl
  · -- the words that are there would be those of the whole blob
    exfalso
    generalize b.take n = front at henough hword hlen
    cases henough with
    | wrongMagic hmagic rest => exact hmagic ((hword hheader.magic.2 ⟨rest, rfl⟩).trans hheader.magic.1)
    | tooSmall hsize rest =>
      rw [hword hheader.totalSize.2 (hsecond _ _ rest), hheader.totalSize.1] at hsize
      exact Nat.not_lt.2 hheader.length_le hsize
    | @sized size rest _ hle =>
      rw [hlen, hword hheader.totalSize.2 (hsecond _ _ rest), hheader.totalSize.1] at hle
      exact Nat.not_le.2 hn hle

end Format

namespace BootInfo

open Structure

variable {info : BootInfo} {v : Version} {s : Settings} {b bytes : Bytes} {bootCpuid : UInt32} {n : Nat}

theorem storable_root (hfit : info.SizesFit v)
    (hids : ∀ n ∈ info.root.preorder, '\x00' ∉ (storedId v.features n).toList) :
    Storable v.features (info.stringTable v).offset info.root :=
  fun m hm => ⟨hids m hm, fun p hp => hfit.records _ (mem_storedSizes_iff.2 ⟨m, hm, p, hp, rfl⟩)⟩

/-- Of a string table that is cut short, some name in the tree is lost. -/
theorem not_findsAll_of_cut (hwritable : info.Writable) {k : Nat} (hk : k < (info.stringTable v).toBytes.length)
    {g : Format.Context} (hstrings : g.strings = (info.stringTable v).toBytes.take k) :
    ¬FindsAll v.features g (info.stringTable v).offset info.root := by
  intro hfinds
  have hstored {name : String} (hname : name ∈ (info.stringTable v).names) :
      ∃ n ∈ info.root.preorder, ∃ p ∈ storedProperties v.features n, p.name = name := by
    rw [stringTable, Structure.stringTable, StringTable.mem_ofList] at hname
    obtain ⟨q, hq, rfl⟩ := List.mem_map.1 hname
    obtain ⟨n, hn, p, hp, rfl⟩ := mem_storedSizes_iff.1 hq
    exact ⟨n, hn, p, hp, rfl⟩
  have hnul : ∀ name ∈ (info.stringTable v).names, '\x00' ∉ name.toList := fun name hname => by
    obtain ⟨n, hn, p, hp, rfl⟩ := hstored hname
    exact hwritable.nul_notMem_storedProperty hn hp
  obtain ⟨name, hname, hlost⟩ := StringTable.exists_lost_name (StringTable.nodup_ofList _) hnul hk
  obtain ⟨n, hn, p, hp, rfl⟩ := hstored hname
  obtain ⟨other, hother⟩ := hfinds n hn p hp
  rw [hstrings] at hother
  exact hlost other hother

/-- What is left of the structure block and of the strings, where the cut falls in the strings. -/
theorem drop_take_blobBytes (info : BootInfo) (v : Version) (bootCpuid : UInt32)
    (hcut : (info.layout v).stringsOffset ≤ n) :
    ((info.blobBytes v bootCpuid).take n).drop (info.layout v).structureOffset =
        info.structureBlock v ++ (info.stringTable v).toBytes.take (n - (info.layout v).stringsOffset) ∧
      ((info.blobBytes v bootCpuid).take n).drop (info.layout v).stringsOffset =
        (info.stringTable v).toBytes.take (n - (info.layout v).stringsOffset) := by
  obtain ⟨-, hblock, -⟩ := layout_offsets_le info v
  refine ⟨?_, by rw [List.drop_take, drop_stringsOffset]⟩
  rw [List.drop_take, drop_structureOffset, List.take_append, List.take_of_length_le (by omega), ← hblock,
    Nat.sub_add_eq]

/-- A written blob does not do with fewer bytes. -/
theorem ofBlob_of_resized (hwritable : info.Writable) (hfit : info.SizesFit v)
    (hids : ∀ n ∈ info.root.preorder, '\x00' ∉ (storedId v.features n).toList)
    (hn : n < (info.blobBytes v bootCpuid).length)
    (hres : Format.Resized (info.blobBytes v bootCpuid) n bytes) : ∃ e, (ofBlob bytes).result = .error e := by
  cases hread : (ofBlob bytes).result with
  | error e => exact ⟨e, rfl⟩
  | ok back =>
  exfalso
  obtain ⟨blob, rest, rfl, header, hheader, -, hstructure, hstrings, hend, -, htree⟩ := ofBlob_eq_ok_iff.1 hread
  have hwritten := isHeader_blobBytes bootCpuid hfit
  have htotal := length_blobBytes info v bootCpuid
  have hn' : n < 0x100000000 := by
    have := hfit.total
    omega
  obtain ⟨hlen, hdrop⟩ := hres.drop hheader hn'
  obtain ⟨hversion, hstructure', hstrings', hsize⟩ := hres.header hheader hwritten hn'
  obtain ⟨hmap, hblock, htable⟩ := layout_offsets_le info v
  obtain ⟨-, hs, hst, -⟩ := header_offsets bootCpuid hfit
  rw [hstructure', hs] at htree
  rw [hstrings', hst] at htree hstrings
  cases hsome : (info.header v bootCpuid).stringsSize with
  | some size =>
    -- the header says where the string block ends
    have hstringsEnd := stringsEnd_blobBytes bootCpuid hfit
    have hsame : Format.stringsEnd blob header =
        Format.stringsEnd (info.blobBytes v bootCpuid) (info.header v bootCpuid) := by
      unfold Format.stringsEnd
      rw [hsize, hsome, hstrings']
    omega
  | none =>
    -- the string block ends with the blob, and so has lost a name
    have hstringsEnd : Format.stringsEnd blob header = blob.length := by
      unfold Format.stringsEnd
      rw [hsize, hsome]
    have hoffset : 8 ≤ (info.layout v).reservationsOffset := by
      show 8 ≤ v.headerSize + padding 8 v.headerSize
      cases v <;> decide
    obtain ⟨hblock', hlost⟩ := drop_take_blobBytes info v bootCpuid (hlen ▸ hstrings)
    rw [hstringsEnd, List.take_length, hdrop _ (by omega), hdrop _ (by omega), hblock', hlost, hversion] at htree
    let r : BlockReader :=
      ⟨v.features, ⟨0, (info.stringTable v).toBytes.take (n - (info.layout v).stringsOffset)⟩⟩
    have hr : r.Reads ⟨v.number, r.strings.bytes⟩ := ⟨(Features.ofNumber_number v).symm, rfl⟩
    have hroot : (r.readTree (.start 0 (info.structureBlock v ++
        (info.stringTable v).toBytes.take (n - (info.layout v).stringsOffset)))).result = .ok back.root :=
      (BlockReader.readTree_eq_ok_iff hr).2 htree
    refine not_findsAll_of_cut hwritable ?_ rfl (BlockReader.findsAll_of_readTree hr (storable_root hfit hids) hroot)
    rw [StringTable.length_toBytes]
    omega

/-- No blob that was written is read once it is cut short: without more ado it is found to be truncated, and where its
total size is set to what is left of it, it is refused, with or without the bytes that were cut. Before version 16, this
is so where the paths follow from the root's and that has no NUL. -/
theorem shortened_never_read (hb : (info.toBlob s).result = .ok b)
    (hpaths : s.version ≠ 16 → info.root.PathsFollow ∧ '\x00' ∉ info.root.path.toList) (hn : n < b.length) :
    (ofBlob (b.take n)).result = .error ⟨.truncated, n⟩ ∧
      (8 ≤ n → (∃ e, (ofBlob (Damage.overwrite b 4 (BigEndian.encode 4 n))).result = .error e) ∧
        ∃ e, (ofBlob (Damage.cut b true n)).result = .error e) := by
  obtain ⟨v, hv, hwritable, hfit, rfl⟩ := toBlob_eq_ok_iff.1 hb
  have hids := hwritable.nul_notMem_storedId fun hne => hpaths fun h => hne ((Version.eq_v16_iff hv).2 h)
  refine ⟨(isHeader_blobBytes s.blobCpuid hfit).ofBlob_take hn, fun h8 => ⟨?_, ?_⟩⟩
  · exact ofBlob_of_resized hwritable hfit hids hn (Damage.resized_overwrite (by omega))
  · exact ofBlob_of_resized hwritable hfit hids hn (Damage.resized_cut h8 (Nat.le_of_lt hn))

/-- In version 1 nothing but the names says where the string block ends. -/
theorem shortened_never_read_lastByte :
    ∃ b, (sample.toBlob { version := 1 }).result = .ok b ∧ 8 ≤ b.length - 1 ∧
      (ofBlob (b.take (b.length - 1))).result = .error ⟨.truncated, b.length - 1⟩ ∧
      ∃ e, (ofBlob (Damage.cut b true (b.length - 1))).result = .error e := by
  obtain ⟨b, hb, hlen⟩ : ∃ b, (sample.toBlob { version := 1 }).result = .ok b ∧ 8 ≤ b.length - 1 :=
    ⟨_, rfl, by decide +kernel⟩
  have hpaths : sample.root.PathsFollow := by decide
  obtain ⟨htruncated, hcut⟩ := shortened_never_read (n := b.length - 1) hb (fun _ => ⟨hpaths, by decide⟩) (by omega)
  exact ⟨b, hb, hlen, htruncated, (hcut hlen).2⟩

end BootInfo

end DeviceTree
