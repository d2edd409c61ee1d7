import DeviceTree.Header
import DeviceTree.Proofs.Cursor

/-!
# What the header reads

A field is read just when its word stands at its place (`fieldAt_eq_ok_iff`), and the whole header, from a blob
as long as its total size says, just when the grammar has it there (`parse_eq_ok_iff`). The bytes of a header are
one that the grammar has (`isHeader_toBytes`).
-/

namespace DeviceTree

open BigEndian (word32)
open Format (WordAt)

variable {blob : Bytes}

theorem Format.WordAt.unique {place : Nat} {w w' : UInt32} (h : WordAt blob place w) (h' : WordAt blob place w') :
    w = w' := by
  obtain ⟨rest, h⟩ := h
  obtain ⟨rest', h'⟩ := h'
  have := BigEndian.word32?_append w rest
  rw [← h, h', BigEndian.word32?_append] at this
  exact (Prod.mk.inj (Option.some.inj this)).1.symm

theorem Format.WordAt.le_length {place : Nat} {w : UInt32} (h : WordAt blob place w) : place + 4 ≤ blob.length := by
  obtain ⟨rest, h⟩ := h
  have := congrArg List.length h
  simp only [List.length_drop, List.length_append, BigEndian.length_word32] at this
  omega

theorem Format.wordAt_iff_take {place : Nat} {w : UInt32} :
    WordAt blob place w ↔ (blob.drop place).take 4 = word32 w := by
  refine ⟨fun h => ?_, fun h => ?_⟩
  · obtain ⟨rest, h⟩ := h
    rw [h, List.take_left' (BigEndian.length_word32 w)]
  · exact ⟨(blob.drop place).drop 4, by rw [← h, List.take_append_drop]⟩

theorem Format.wordAt_append_iff {place : Nat} {w : UInt32} (rest : Bytes) (h : place + 4 ≤ blob.length) :
    WordAt (blob ++ rest) place w ↔ WordAt blob place w := by
  have hdrop : 4 ≤ (blob.drop place).length := by
    rw [List.length_drop]
    omega
  rw [wordAt_iff_take, wordAt_iff_take, List.drop_append_of_le_length (by omega),
    List.take_append_of_le_length hdrop]

theorem Format.WordAt.append {place : Nat} {w : UInt32} (h : WordAt blob place w) (rest : Bytes) :
    WordAt (blob ++ rest) place w :=
  (wordAt_append_iff rest h.le_length).2 h

theorem Format.WordAt.of_take {n place : Nat} {w : UInt32} (h : WordAt (blob.take n) place w) :
    WordAt blob place w := by
  have hwhole := h.append (blob.drop n)
  rwa [List.take_append_drop] at hwhole

theorem Format.wordAt_words {words : List UInt32} {i : Nat} {w : UInt32} (h : words[i]? = some w) (rest : Bytes) :
    Format.WordAt (words.flatMap BigEndian.word32 ++ rest) (4 * i) w := by
  induction words generalizing i with
  | nil => cases h
  | cons word words ih =>
    cases i with
    | zero =>
      obtain rfl : word = w := by simpa using h
      exact ⟨words.flatMap BigEndian.word32 ++ rest, by simp⟩
    | succ i =>
      obtain ⟨tail, htail⟩ := ih (by simpa using h)
      refine ⟨tail, ?_⟩
      have hplace : 4 * (i + 1) = (BigEndian.word32 word).length + 4 * i := by
        rw [BigEndian.length_word32]
        omega
      rw [hplace, List.flatMap_cons, List.append_assoc, List.drop_length_add_append]
      exact htail

namespace Header

theorem fieldAt_eq_ok_iff {field : HeaderField} {w : UInt32} :
    fieldAt blob field = .ok w ↔ WordAt blob field.position w := by
  unfold fieldAt WordAt
  refine ⟨fun h => ?_, fun h => ?_⟩
  · split at h
    · rename_i w' rest hw
      obtain rfl := Except.ok.inj h
      exact ⟨rest, BigEndian.word32?_eq_some_iff.1 hw⟩
    · cases h
  · obtain ⟨rest, hrest⟩ := h
    rw [hrest, BigEndian.word32?_append]

theorem checkMagic_eq_ok_iff {w : UInt32} :
    checkMagic blob = .ok w ↔ w = 0xD00DFEED ∧ WordAt blob 0 w := by
  simp only [checkMagic, bind_eq_ok_iff, fieldAt_eq_ok_iff]
  refine ⟨fun h => ?_, fun h => ?_⟩
  · obtain ⟨magic, hword, h⟩ := h
    split at h
    · cases h
    · rename_i hmagic
      obtain rfl := Except.ok.inj h
      exact ⟨Decidable.not_not.1 hmagic, hword⟩
  · obtain ⟨rfl, hword⟩ := h
    exact ⟨_, hword, rfl⟩

theorem checkTotalSize_eq_ok_iff {w : UInt32} :
    checkTotalSize blob = .ok w ↔ WordAt blob 4 w ∧ 28 ≤ w.toNat := by
  simp only [checkTotalSize, bind_eq_ok_iff, fieldAt_eq_ok_iff]
  refine ⟨fun h => ?_, fun h => ?_⟩
  · obtain ⟨size, hword, h⟩ := h
    split at h
    · cases h
    · rename_i hsize
      obtain rfl := Except.ok.inj h
      exact ⟨hword, Nat.not_lt.1 hsize⟩
  · obtain ⟨hword, hsize⟩ := h
    exact ⟨w, hword, if_neg (Nat.not_lt.2 hsize)⟩

theorem requireLength_eq_ok_iff {n : Nat} {u : Unit} : requireLength n blob = .ok u ↔ n ≤ blob.length := by
  unfold requireLength
  split <;> simp <;> omega

theorem optionalFieldAt_eq_ok_iff {present : Prop} [Decidable present] {field : HeaderField} {o : Option UInt32} :
    optionalFieldAt blob present field = .ok o ↔
      if present then ∃ w, o = some w ∧ WordAt blob field.position w else o = none := by
  unfold optionalFieldAt
  split
  · cases hf : fieldAt blob field with
    | error e =>
      refine ⟨nofun, fun h => ?_⟩
      obtain ⟨w, -, hw⟩ := h
      rw [fieldAt_eq_ok_iff.2 hw] at hf
      cases hf
    | ok w =>
      have hword := fieldAt_eq_ok_iff.1 hf
      refine ⟨fun h => ?_, fun h => ?_⟩
      · exact ⟨w, (Except.ok.inj h).symm, hword⟩
      · obtain ⟨w', rfl, hw'⟩ := h
        rw [hword.unique hw']
        rfl
  · exact ⟨fun h => (Except.ok.inj h).symm, fun h => h ▸ rfl⟩

theorem sizeFor_eq (version : UInt32) :
    sizeFor version = if version ≤ 1 then 28 else if version = 2 then 32 else 36 := by
  have h2 : version < 2 ↔ version ≤ 1 := by
    rw [UInt32.lt_iff_toNat_lt, UInt32.le_iff_toNat_le]
    exact Nat.lt_succ_iff
  have h3 (h : ¬version ≤ 1) : version < 3 ↔ version = 2 := by
    rw [UInt32.le_iff_toNat_le] at h
    rw [UInt32.lt_iff_toNat_lt, ← UInt32.toNat_inj]
    change ¬version.toNat ≤ 1 at h
    show version.toNat < 3 ↔ version.toNat = 2
    omega
  unfold sizeFor
  by_cases h : version ≤ 1
  · simp only [h2, h, if_true]
  · simp only [h2, h, h3 h, if_false]

theorem sizeFor_bounds (version : UInt32) :
    28 ≤ sizeFor version ∧ sizeFor version ≤ 36 ∧ (2 ≤ version → 32 ≤ sizeFor version) ∧
      (3 ≤ version → 36 ≤ sizeFor version) := by
  simp only [sizeFor, UInt32.lt_iff_toNat_lt, UInt32.le_iff_toNat_le]
  change _ ∧ _ ∧ (2 ≤ version.toNat → _) ∧ (3 ≤ version.toNat → _)
  split
  · rename_i h2
    change version.toNat < 2 at h2
    omega
  · split
    · rename_i h3
      change version.toNat < 3 at h3
      omega
    · omega

theorem parse_eq_ok_iff {h : Header}
    (hsize : ∀ size, WordAt blob 4 size → size.toNat = blob.length) :
    parse blob = .ok h ↔ Format.IsHeader blob h := by
  simp only [parse, bind_eq_ok_iff, checkMagic_eq_ok_iff, requireLength_eq_ok_iff, fieldAt_eq_ok_iff,
    optionalFieldAt_eq_ok_iff]
  refine ⟨fun hparse => ?_, fun hheader => ?_⟩
  · obtain ⟨magic, hmagic, -, -, version, hversion, -, hlength, total, htotal, hstructure, hs, hstrings, hst,
      hreservations, hr, last, hl, cpu, hcpu, size, hstringsSize, he⟩ := hparse
    obtain rfl := Except.ok.inj he
    rw [sizeFor_eq] at hlength
    exact ⟨hmagic, ⟨hsize _ htotal, htotal⟩, hs, hst, hr, hversion, hl, hcpu, hstringsSize, hlength⟩
  · obtain ⟨hmagic, htotal, hs, hst, hr, hversion, hl, hcpu, hstringsSize, hlength⟩ := hheader
    rw [← sizeFor_eq] at hlength
    have hsmallest : smallestSize ≤ sizeFor h.version := (sizeFor_bounds h.version).1
    exact ⟨_, hmagic, (), Nat.le_trans hsmallest hlength, _, hversion, (), hlength, _, htotal.2, _, hs, _, hst, _,
      hr, _, hl, _, hcpu, _, hstringsSize, rfl⟩

/-- A header stands at the front of its bytes. -/
theorem isHeader_toBytes {h : Header} {rest : Bytes} (hmagic : h.magic = magicNumber)
    (hsize : h.totalSize.toNat = (h.toBytes ++ rest).length)
    (hbootCpuid : h.bootCpuid.isSome = decide (2 ≤ h.version))
    (hstringsSize : h.stringsSize.isSome = decide (3 ≤ h.version)) :
    Format.IsHeader (h.toBytes ++ rest) h := by
  obtain ⟨magic, totalSize, structureOffset, stringsOffset, reservationsOffset, version, lastCompatible, bootCpuid,
    stringsSize⟩ := h
  have hword {i : Nat} {w : UInt32} (hw : ([magic, totalSize, structureOffset, stringsOffset, reservationsOffset,
      version, lastCompatible] ++ bootCpuid.toList ++ stringsSize.toList)[i]? = some w) :=
    Format.wordAt_words hw rest
  have hcpu (h : 2 ≤ version) : ∃ id, bootCpuid = some id :=
    Option.isSome_iff_exists.1 (hbootCpuid.trans (decide_eq_true h))
  have hstr (h : 3 ≤ version) : ∃ size, stringsSize = some size :=
    Option.isSome_iff_exists.1 (hstringsSize.trans (decide_eq_true h))
  have h23 (h : 3 ≤ version) : 2 ≤ version := UInt32.le_trans (by decide) h
  refine ⟨⟨hmagic, @hword 0 _ rfl⟩, ⟨hsize, @hword 1 _ rfl⟩, @hword 2 _ rfl, @hword 3 _ rfl, @hword 4 _ rfl,
    @hword 5 _ rfl, @hword 6 _ rfl, ?_, ?_, ?_⟩
  · split
    · rename_i h
      obtain ⟨id, rfl⟩ := hcpu h
      exact ⟨id, rfl, @hword 7 _ rfl⟩
    · rename_i h
      exact Option.isNone_iff_eq_none.1 (by simpa [h] using hbootCpuid)
  · split
    · rename_i h
      obtain ⟨id, rfl⟩ := hcpu (h23 h)
      obtain ⟨size, rfl⟩ := hstr h
      exact ⟨size, rfl, @hword 8 _ rfl⟩
    · rename_i h
      exact Option.isNone_iff_eq_none.1 (by simpa [h] using hstringsSize)
  · rw [← sizeFor_eq]
    unfold sizeFor
    have hlen : 28 + 4 * (bootCpuid.toList.length + stringsSize.toList.length) ≤
        (toBytes ⟨magic, totalSize, structureOffset, stringsOffset, reservationsOffset, version, lastCompatible,
          bootCpuid, stringsSize⟩ ++ rest).length := by
      simp only [toBytes, List.length_append, List.length_flatMap, BigEndian.length_word32, List.map_const',
        List.sum_replicate_nat, List.length_cons, List.length_nil]
      omega
    split
    · omega
    · rename_i h2
      obtain ⟨id, rfl⟩ := hcpu (UInt32.not_lt.1 h2)
      split
      · simp only [Option.toList_some, List.length_singleton] at hlen
        omega
      · rename_i h3
        obtain ⟨size, rfl⟩ := hstr (UInt32.not_lt.1 h3)
        simp only [Option.toList_some, List.length_singleton] at hlen
        omega

end Header

end DeviceTree
