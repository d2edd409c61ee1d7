import DeviceTree.Proofs.DecodedPaths
import DeviceTree.Proofs.Faults
import DeviceTree.Proofs.OpenNodes

/-!
# Where a blob is at fault

An error names a place, and at that place the blob has what the fault says (`Blames`): the header a word that breaks
its bound, the structure block a token or a text that does not go on from the nodes open there, the string block
something else than a name. Where the blob is said to end too early, there is something that it has no room for
(`CutShort`).

* `ofBlob_error_blames`: whatever bytes are refused, the error is borne out by them.
-/

namespace DeviceTree

open BigEndian (word32)
open Format (EndsEarly WordAt)

/-! ## What an error says -/

namespace Format

/-- These bytes stand at `place`, up to the next NUL. -/
def TextAt (bytes : Bytes) (place : Nat) (text : Bytes) : Prop :=
  ∃ rest, bytes.drop place = text ++ 0 :: rest ∧ 0 ∉ text

/-- What the structure block of a blob with this header is understood with. -/
def Context.of (blob : Bytes) (h : Header) : Context :=
  ⟨h.version, (blob.take (stringsEnd blob h)).drop h.stringsOffset.toNat⟩

/-- The bytes begin with a blob, and the blob with this header. -/
structure Begins (bytes blob : Bytes) (h : Header) : Prop where
  front : ∃ rest, bytes = blob ++ rest
  header : IsHeader blob h

/-- At this place of the blob, behind records of its structure block, there are open nodes with these paths, the
innermost first. -/
def OpenAt (blob : Bytes) (h : Header) (place : Nat) (paths : List String) : Prop :=
  ∃ front rest, blob.drop h.structureOffset.toNat = front ++ rest ∧
    place = h.structureOffset.toNat + front.length ∧ Opens (.of blob h) paths front

/-- The word in a header field leads past the total size: to a block that does not start before it, or to strings that
do not end by it. Only from version 3 on does the header say how many bytes of strings there are. -/
def LeadsPast (bytes : Bytes) (total : UInt32) : HeaderField → UInt32 → Prop
  | .reservationsOffset, w => total ≤ w
  | .structureOffset, w => total ≤ w
  | .stringsOffset, w => total < w
  | .stringsSize, w => ∃ version offset, WordAt bytes HeaderField.version.position version ∧ 3 ≤ version ∧
      WordAt bytes HeaderField.stringsOffset.position offset ∧ total.toNat < offset.toNat + w.toNat
  | _, _ => False

/-- The bytes have no room for something, and `place` is where that begins. If it is the header or the blob as a whole,
`place` is where the bytes or the blob end. -/
inductive CutShort (bytes : Bytes) : (place : Nat) → Prop where
  /-- There is no room for the magic number. -/
  | magic (hshort : bytes.length < 4) : CutShort bytes bytes.length
  /-- There is none for the total size, behind the magic number. -/
  | totalSize (hmagic : WordAt bytes 0 0xD00DFEED) (hshort : bytes.length < 8) : CutShort bytes bytes.length
  /-- There is none for as many bytes as the total size says. -/
  | blob {total : UInt32} (htotal : WordAt bytes 4 total) (hshort : bytes.length < total.toNat) :
    CutShort bytes bytes.length
  /-- The total size does not cover the header of the version. -/
  | header {total version : UInt32} (htotal : WordAt bytes 4 total) (hversion : WordAt bytes 20 version)
    (hshort : total.toNat < if version ≤ 1 then 28 else if version = 2 then 32 else 36) :
    CutShort bytes total.toNat
  /-- There is no room for an entry of the reservation map, behind others that do not end it. -/
  | entry {blob rest : Bytes} {h : Header} {entries : List Reservation} (hb : Begins bytes blob h)
    (hmap : blob.drop h.reservationsOffset.toNat = entries.flatMap Reservation.toBytes ++ rest)
    (hsizes : ∀ r ∈ entries, r.size ≠ 0) (hshort : rest.length < 16) :
    CutShort bytes (h.reservationsOffset.toNat + 16 * entries.length)
  /-- There is none for what comes next in the opening of the root. -/
  | root {blob : Bytes} {h : Header} {n : Nat} (hb : Begins bytes blob h)
    (hfirst : ∀ w, WordAt blob h.structureOffset.toNat w → w = Token.beginNode.word)
    (hends : EndsEarly (.of blob h) 0 (blob.drop h.structureOffset.toNat) n) :
    CutShort bytes (h.structureOffset.toNat + n)
  /-- There is none for what comes next in a record inside the innermost open node. -/
  | record {blob front bs : Bytes} {h : Header} {path : String} {paths : List String} {n : Nat}
    (hb : Begins bytes blob h) (hblock : blob.drop h.structureOffset.toNat = front ++ bs)
    (hopens : Opens (.of blob h) (path :: paths) front) (hends : EndsEarly (.of blob h) front.length bs n) :
    CutShort bytes (h.structureOffset.toNat + front.length + n)
  /-- There is none for the token that ends the structure block, behind the root. -/
  | finish {blob : Bytes} {h : Header} {place : Nat} (hb : Begins bytes blob h) (hopen : OpenAt blob h place [])
    (hshort : blob.length < place + 4) : CutShort bytes place

end Format

open Format

/-- The bytes bear out the error: at its place there is what its fault says. -/
inductive Blames (bytes : Bytes) : DecodeError → Prop where
  /-- The first word is not the magic number. -/
  | invalidMagic {w : UInt32} (hword : WordAt bytes 0 w) (hw : w ≠ 0xD00DFEED) : Blames bytes ⟨.invalidMagic w, 0⟩
  /-- The second word does not cover the smallest header. -/
  | blobTooSmall {w : UInt32} (hword : WordAt bytes 4 w) (hw : w.toNat < 28) : Blames bytes ⟨.blobTooSmall w, 4⟩
  /-- The bytes end too early for something. The place itself is not behind their end. -/
  | truncated {place : Nat} (hplace : place ≤ bytes.length) (hcut : CutShort bytes place) :
    Blames bytes ⟨.truncated, place⟩
  /-- The word of the field breaks its bound. -/
  | offsetOutOfBounds {field : HeaderField} {w total : UInt32} (htotal : WordAt bytes 4 total)
    (hword : WordAt bytes field.position w) (hw : LeadsPast bytes total field w) :
    Blames bytes ⟨.offsetOutOfBounds field, field.position⟩
  /-- The structure block begins with another word than the token that opens a node. -/
  | missingBeginNode {blob : Bytes} {h : Header} {w : UInt32} (hb : Begins bytes blob h)
    (hword : WordAt blob h.structureOffset.toNat w) (hw : w ≠ Token.beginNode.word) :
    Blames bytes ⟨.missingBeginNode w, h.structureOffset.toNat⟩
  /-- Inside a node there is a word that is no token. -/
  | badToken {blob : Bytes} {h : Header} {place : Nat} {path : String} {paths : List String} {w : UInt32}
    (hb : Begins bytes blob h) (hopen : OpenAt blob h place (path :: paths)) (hword : WordAt blob place w)
    (hw : ∀ t : Token, w ≠ t.word) : Blames bytes ⟨.badToken w, place⟩
  /-- Inside a node there is the token that ends the block. -/
  | prematureEnd {blob : Bytes} {h : Header} {place : Nat} {path : String} {paths : List String}
    (hb : Begins bytes blob h) (hopen : OpenAt blob h place (path :: paths))
    (hword : WordAt blob place Token.finish.word) : Blames bytes ⟨.prematureEnd, place⟩
  /-- Behind the root there is another word than the token that ends the block. -/
  | missingEnd {blob : Bytes} {h : Header} {place : Nat} {w : UInt32} (hb : Begins bytes blob h)
    (hopen : OpenAt blob h place []) (hword : WordAt blob place w) (hw : w ≠ Token.finish.word) :
    Blames bytes ⟨.missingEnd w, place⟩
  /-- The token before the place opens a node where 256 are open. -/
  | nestingTooDeep {blob : Bytes} {h : Header} {place : Nat} {paths : List String} (hb : Begins bytes blob h)
    (hopen : OpenAt blob h place paths) (hdepth : 256 ≤ paths.length)
    (hword : WordAt blob place Token.beginNode.word) : Blames bytes ⟨.nestingTooDeep, place + 4⟩
  /-- The root is stored as a text that is no path for it. -/
  | rootPathMismatch {blob id : Bytes} {h : Header} (hb : Begins bytes blob h)
    (hword : WordAt blob h.structureOffset.toNat Token.beginNode.word)
    (htext : TextAt blob (h.structureOffset.toNat + 4) id)
    (hid : ∀ name path, ¬StoredAs h.version none (Utf8.lossy id) name path) :
    Blames bytes ⟨.pathMismatch (Utf8.lossy id) "", h.structureOffset.toNat + 4⟩
  /-- A node is stored as a text that is no path for it inside the innermost open node. -/
  | pathMismatch {blob id : Bytes} {h : Header} {place : Nat} {path : String} {paths : List String}
    (hb : Begins bytes blob h) (hopen : OpenAt blob h place (path :: paths))
    (hword : WordAt blob place Token.beginNode.word) (htext : TextAt blob (place + 4) id)
    (hid : ∀ name inner, ¬StoredAs h.version (some path) (Utf8.lossy id) name inner) :
    Blames bytes ⟨.pathMismatch (Utf8.lossy id) path, place + 4⟩
  /-- The bytes up to the next NUL of the string block are not the UTF-8 form of a text. -/
  | invalidString {blob name : Bytes} {h : Header} {offset : Nat} (hb : Begins bytes blob h)
    (hplace : h.stringsOffset.toNat + offset < stringsEnd blob h)
    (htext : TextAt (Context.of blob h).strings offset name) (hname : ∀ s, Utf8.encode s ≠ name) :
    Blames bytes ⟨.invalidString, h.stringsOffset.toNat + offset⟩
  /-- No NUL comes in the string block any more. -/
  | stringOffsetOutOfBounds {blob : Bytes} {h : Header} {offset : UInt32} (hb : Begins bytes blob h)
    (hnul : 0 ∉ (Context.of blob h).strings.drop offset.toNat) :
    Blames bytes ⟨.stringOffsetOutOfBounds offset, h.stringsOffset.toNat + offset.toNat⟩

/-! ## The header -/

namespace Header

variable {bytes : Bytes} {e : DecodeError}

theorem fieldAt_error {field : HeaderField} (h : fieldAt bytes field = .error e) :
    bytes.length < field.position + 4 ∧ e = ⟨.truncated, bytes.length⟩ := by
  unfold fieldAt at h
  split at h
  · cases h
  · rename_i hnone
    have hshort := BigEndian.word32?_eq_none_iff.1 hnone
    rw [List.length_drop] at hshort
    exact ⟨by omega, (Except.error.inj h).symm⟩

theorem checkMagic_error (h : checkMagic bytes = .error e) : Blames bytes e := by
  rcases bind_eq_error_iff.1 h with h | ⟨w, hw, h⟩
  · obtain ⟨hshort, rfl⟩ := fieldAt_error h
    exact .truncated (Nat.le_refl _) (.magic hshort)
  · split at h
    · rename_i hmagic
      obtain rfl := Except.error.inj h
      exact .invalidMagic (fieldAt_eq_ok_iff.1 hw) hmagic
    · cases h

theorem checkTotalSize_error (hmagic : WordAt bytes 0 0xD00DFEED) (h : checkTotalSize bytes = .error e) :
    Blames bytes e := by
  rcases bind_eq_error_iff.1 h with h | ⟨w, hw, h⟩
  · obtain ⟨hshort, rfl⟩ := fieldAt_error h
    exact .truncated (Nat.le_refl _) (.totalSize hmagic hshort)
  · split at h
    · rename_i hsize
      obtain rfl := Except.error.inj h
      exact .blobTooSmall (fieldAt_eq_ok_iff.1 hw) hsize
    · cases h

theorem requireLength_error {n : Nat} (h : requireLength n bytes = .error e) :
    bytes.length < n ∧ e = ⟨.truncated, bytes.length⟩ := by
  unfold requireLength at h
  split at h
  · exact ⟨‹_›, (Except.error.inj h).symm⟩
  · cases h

theorem optionalFieldAt_error {present : Prop} [Decidable present] {field : HeaderField}
    (h : optionalFieldAt bytes present field = .error e) : present ∧ bytes.length < field.position + 4 := by
  unfold optionalFieldAt at h
  split at h
  · exact ⟨‹_›, (fieldAt_error (map_eq_error_iff.1 h)).1⟩
  · cases h

/-- A blob that covers the smallest header has no other reason to be refused one than being too short for its version:
all the fields of that version are there then. -/
theorem parse_error (hmagic : WordAt bytes 0 0xD00DFEED) (hsmallest : 28 ≤ bytes.length)
    (h : parse bytes = .error e) :
    ∃ version, WordAt bytes 20 version ∧ bytes.length < sizeFor version ∧ e = ⟨.truncated, bytes.length⟩ := by
  rcases bind_eq_error_iff.1 h with h | ⟨_, -, h⟩
  · rw [checkMagic_eq_ok_iff.2 ⟨rfl, hmagic⟩] at h
    cases h
  rcases bind_eq_error_iff.1 h with h | ⟨_, -, h⟩
  · exact absurd hsmallest (Nat.not_le.2 (requireLength_error h).1)
  have hfield {field : HeaderField} (hposition : field.position ≤ 24) : fieldAt bytes field ≠ .error e := by
    intro h
    have := (fieldAt_error h).1
    omega
  rcases bind_eq_error_iff.1 h with h | ⟨version, hversion, h⟩
  · exact absurd h (hfield (by decide))
  rcases bind_eq_error_iff.1 h with h | ⟨_, hlength, h⟩
  · exact ⟨version, fieldAt_eq_ok_iff.1 hversion, requireLength_error h⟩
  have hlength := requireLength_eq_ok_iff.1 hlength
  obtain ⟨-, -, h2, h3⟩ := sizeFor_bounds version
  iterate 5
    rcases bind_eq_error_iff.1 h with h | ⟨_, -, h⟩
    · exact absurd h (hfield (by decide))
  rcases bind_eq_error_iff.1 h with h | ⟨_, -, h⟩
  · obtain ⟨hpresent, hshort⟩ := optionalFieldAt_error h
    exact absurd (Nat.lt_of_lt_of_le hshort (h2 hpresent)) (Nat.not_lt.2 hlength)
  rcases bind_eq_error_iff.1 h with h | ⟨_, -, h⟩
  · obtain ⟨hpresent, hshort⟩ := optionalFieldAt_error h
    exact absurd (Nat.lt_of_lt_of_le hshort (h3 hpresent)) (Nat.not_lt.2 hlength)
  · cases h

theorem require_error {bound : Prop} [Decidable bound] {field : HeaderField} (h : require bound field = .error e) :
    ¬bound ∧ e = ⟨.offsetOutOfBounds field, field.position⟩ := by
  unfold require at h
  split at h
  · cases h
  · exact ⟨‹_›, (Except.error.inj h).symm⟩

end Header

variable {bytes blob : Bytes} {h : Header} {e : DecodeError}

theorem delimited_error (h : delimited bytes = .error e) : Blames bytes e := by
  rcases bind_eq_error_iff.1 h with h | ⟨magic, hmagic, h⟩
  · exact Header.checkMagic_error h
  obtain ⟨rfl, hmagic⟩ := Header.checkMagic_eq_ok_iff.1 hmagic
  rcases bind_eq_error_iff.1 h with h | ⟨size, hsize, h⟩
  · exact Header.checkTotalSize_error hmagic h
  split at h
  · cases h
  · rename_i hnone
    obtain rfl := Except.error.inj h
    have hshort := Bytes.split?_eq_none_iff.1 hnone
    exact .truncated (Nat.le_refl _) (.blob (Header.checkTotalSize_eq_ok_iff.1 hsize).1 hshort)

/-- Behind the front of a block there is what the blob has from that place on. -/
theorem drop_of_block {offset : Nat} {front rest : Bytes} (hblock : blob.drop offset = front ++ rest) :
    blob.drop (offset + front.length) = rest := by
  rw [← List.drop_drop, hblock, List.drop_left]

theorem textAt_of_word {place : Nat} {w : UInt32} {id rest tail : Bytes} (hword : blob.drop place = word32 w ++ rest)
    (hrest : rest = id ++ 0 :: tail) (hnul : 0 ∉ id) : TextAt blob (place + 4) id := by
  have htext := drop_of_block hword
  rw [BigEndian.length_word32, hrest] at htext
  exact ⟨tail, htext, hnul⟩

theorem length_of_block {offset : Nat} {front rest : Bytes} (hoffset : offset ≤ blob.length)
    (hblock : blob.drop offset = front ++ rest) : offset + (front.length + rest.length) = blob.length := by
  have hlen := congrArg List.length hblock
  rw [List.length_drop, List.length_append] at hlen
  omega

theorem blockAt_eq_inBlock (blob : Bytes) (offset : UInt32) :
    blockAt blob offset = .inBlock offset.toNat 0 (blob.drop offset.toNat) := rfl

namespace Format.IsHeader

theorem begins (hheader : IsHeader blob h) : Begins blob blob h :=
  ⟨⟨[], (List.append_nil blob).symm⟩, hheader⟩

theorem stringBlock_eq (hheader : IsHeader blob h) :
    stringBlock blob h = ⟨h.stringsOffset.toNat, (Context.of blob h).strings⟩ := by
  rw [stringBlock, Header.stringsEnd_eq hheader.totalSize.1]
  rfl

theorem reads (hheader : IsHeader blob h) :
    BlockReader.Reads ⟨h.features, stringBlock blob h⟩ (.of blob h) :=
  ⟨rfl, by rw [hheader.stringBlock_eq]⟩

/-- A text that no node is stored as inside `parent` is no path there. -/
theorem not_storedAs (hheader : IsHeader blob h) {parent : Option String} {id : String}
    (hid : BlockReader.nodeStoredAs ⟨h.features, stringBlock blob h⟩ parent id = none) (name path : String) :
    ¬StoredAs h.version parent id name path := by
  intro hstored
  rw [(BlockReader.nodeStoredAs_eq_some_iff hheader.reads).2 ⟨name, path, hstored, rfl⟩] at hid
  cases hid

end Format.IsHeader

/-! ## The blocks -/

namespace Format.Begins

theorem wordAt (hb : Begins bytes blob h) {place : Nat} {w : UInt32} (hword : WordAt blob place w) :
    WordAt bytes place w := by
  obtain ⟨rest, rfl⟩ := hb.front
  exact hword.append rest

theorem length_le (hb : Begins bytes blob h) : blob.length ≤ bytes.length := by
  obtain ⟨rest, rfl⟩ := hb.front
  simp

theorem blames_of_checkBounds (hb : Begins bytes blob h) (he : h.checkBounds = .error e) : Blames bytes e := by
  have hheader := hb.header
  have htotal := hb.wordAt hheader.totalSize.2
  rcases bind_eq_error_iff.1 he with he | ⟨_, -, he⟩
  · obtain ⟨hbound, rfl⟩ := Header.require_error he
    exact .offsetOutOfBounds htotal (hb.wordAt hheader.reservationsOffset) (UInt32.not_lt.1 hbound)
  rcases bind_eq_error_iff.1 he with he | ⟨_, -, he⟩
  · obtain ⟨hbound, rfl⟩ := Header.require_error he
    exact .offsetOutOfBounds htotal (hb.wordAt hheader.structureOffset) (UInt32.not_lt.1 hbound)
  rcases bind_eq_error_iff.1 he with he | ⟨_, -, he⟩
  · obtain ⟨hbound, rfl⟩ := Header.require_error he
    exact .offsetOutOfBounds htotal (hb.wordAt hheader.stringsOffset) (UInt32.not_le.1 hbound)
  · obtain ⟨hbound, rfl⟩ := Header.require_error he
    have hsize := hheader.stringsSize
    split at hsize
    · rename_i hversion
      obtain ⟨size, hsome, hword⟩ := hsize
      rw [Header.stringsEnd, hsome] at hbound
      exact .offsetOutOfBounds htotal (hb.wordAt hword) ⟨h.version, h.stringsOffset, hb.wordAt hheader.version, hversion,
        hb.wordAt hheader.stringsOffset, Nat.not_le.1 hbound⟩
    · -- without that field, the strings end with the blob
      rw [Header.stringsEnd, hsize] at hbound
      exact absurd (Nat.le_refl _) hbound

theorem blames_of_readReservations (hb : Begins bytes blob h) (hreservations : h.reservationsOffset.toNat ≤ blob.length)
    (he : readReservations (blockAt blob h.reservationsOffset) = .error e) : Blames bytes e := by
  rw [blockAt_eq_inBlock] at he
  obtain ⟨entries, rest, hmap, hsizes, hshort, rfl⟩ := readReservations_error he
  have hlen := length_of_block hreservations hmap
  rw [Reservation.length_flatMap_toBytes, Reservation.entrySize] at hlen
  rw [Nat.zero_add]
  exact .truncated (Nat.le_trans (by omega) hb.length_le) (.entry hb hmap hsizes hshort)

theorem blames_of_name (hb : Begins bytes blob h) {offset : UInt32} (he : (stringBlock blob h).name offset = .error e) :
    Blames bytes e := by
  rw [hb.header.stringBlock_eq] at he
  unfold StringBlock.name at he
  split at he
  · rename_i hnone
    obtain rfl := Except.error.inj he
    exact .stringOffsetOutOfBounds hb (Bytes.untilNul?_eq_none_iff.1 hnone)
  · rename_i name rest hu
    obtain ⟨hname, hnul⟩ := Bytes.untilNul?_eq_some_iff.1 hu
    split at he
    · cases he
    · rename_i hnone
      obtain rfl := Except.error.inj he
      refine .invalidString hb ?_ ⟨rest, hname, hnul⟩ fun s hs => ?_
      · have hlen := congrArg List.length hname
        simp only [Context.of, List.length_drop, List.length_take, List.length_append, List.length_cons] at hlen
        omega
      · rw [Utf8.decode?_eq_some_iff.2 hs.symm] at hnone
        cases hnone

/-! ## The structure block -/

/-- A record that runs out of bytes is cut short at the place of the error. -/
theorem blames_of_runsOut {front bs : Bytes} (hb : Begins bytes blob h)
    (hstructure : h.structureOffset.toNat ≤ blob.length) (hblock : blob.drop h.structureOffset.toNat = front ++ bs)
    (hcut : ∀ n, EndsEarly (.of blob h) front.length bs n →
      CutShort bytes (h.structureOffset.toNat + (front.length + n)))
    (he : BlockReader.RunsOut (.of blob h) h.structureOffset.toNat front.length bs e) : Blames bytes e := by
  obtain ⟨n, hends, rfl⟩ := he
  have hlen := length_of_block hstructure hblock
  have hn := hends.le_length
  exact .truncated (Nat.le_trans (by omega) hb.length_le) (hcut n hends)

/-- A token that is at fault is so where the error says. -/
theorem blames_of_step (hb : Begins bytes blob h) (hstructure : h.structureOffset.toNat ≤ blob.length)
    {s : BlockReader.Reading}
    (hs : BlockReader.Stands (.of blob h) h.structureOffset.toNat (blob.drop h.structureOffset.toNat) s)
    (he : (BlockReader.step ⟨h.features, stringBlock blob h⟩ s).result = .error e) : Blames bytes e := by
  obtain ⟨inner, outer, c⟩ := s
  obtain ⟨front, bs, hblock, hc, hopens⟩ := hs
  obtain rfl : c = .inBlock h.structureOffset.toNat front.length bs := hc
  have hr := hb.header.reads
  have hopen : OpenAt blob h (h.structureOffset.toNat + front.length) (inner.path :: outer.map (·.path)) :=
    ⟨front, bs, hblock, rfl, hopens⟩
  have hrunsOut (hrun : BlockReader.RunsOut (.of blob h) h.structureOffset.toNat front.length bs e) : Blames bytes e :=
    hb.blames_of_runsOut hstructure hblock (fun n hends => Nat.add_assoc .. ▸ .record hb hblock hopens hends) hrun
  rw [BlockReader.result_step] at he
  rcases bind_eq_error_iff.1 he with he | ⟨⟨w, next⟩, hw, he⟩
  · obtain ⟨hshort, rfl⟩ := Cursor.word_error he
    exact hrunsOut (BlockReader.runsOut_of_part .token rfl hshort rfl)
  obtain ⟨rest, rfl, rfl⟩ := Cursor.word_eq_ok_iff.1 hw
  have hword : WordAt blob (h.structureOffset.toNat + front.length) w := ⟨rest, drop_of_block hblock⟩
  cases ht : Token.ofWord? w with
  | none =>
    simp only [ht] at he
    obtain rfl := Except.error.inj he
    refine .badToken hb hopen hword fun t hne => ?_
    rw [hne, Token.ofWord?_word] at ht
    cases ht
  | some t =>
    obtain rfl := Token.ofWord?_eq_some_iff.1 ht
    simp only [ht] at he
    unfold BlockReader.stepAt at he
    cases t with
    | finish =>
      obtain rfl := Except.error.inj he
      exact .prematureEnd hb hopen hword
    | endNode => cases outer <;> simp at he
    | property =>
      rcases BlockReader.readProperty_error hr (map_eq_error_iff.1 he) with hrun | ⟨offset, hname⟩
      · exact hrunsOut hrun
      · exact hb.blames_of_name hname
    | beginNode =>
      dsimp only at he
      split at he
      · rename_i hdepth
        obtain rfl := Except.error.inj he
        refine .nestingTooDeep hb hopen ?_ hword
        rw [List.length_cons, List.length_map]
        exact hdepth
      · rcases BlockReader.readOpening_error (map_eq_error_iff.1 he) with hrun | ⟨id, ⟨tail, htail⟩, hnul, hnone, rfl⟩
        · exact hrunsOut hrun
        · have htext := textAt_of_word (drop_of_block hblock) htail hnul
          exact .pathMismatch hb hopen hword htext (hb.header.not_storedAs hnone)

/-- A tree that is at fault is so where the error says: at its start, at the token that the reading has come to, with
its nodes open, or behind the root. -/
theorem blames_of_readTree (hb : Begins bytes blob h) (hstructure : h.structureOffset.toNat ≤ blob.length)
    (he : (BlockReader.readTree ⟨h.features, stringBlock blob h⟩ (blockAt blob h.structureOffset)).result = .error e) :
    Blames bytes e := by
  have hr := hb.header.reads
  have hblock : blob.drop h.structureOffset.toNat = [] ++ blob.drop h.structureOffset.toNat := rfl
  have hrunsOut (hfirst : ∀ w, WordAt blob h.structureOffset.toNat w → w = Token.beginNode.word)
      (hrun : BlockReader.RunsOut (.of blob h) h.structureOffset.toNat 0 (blob.drop h.structureOffset.toNat) e) :
      Blames bytes e :=
    hb.blames_of_runsOut hstructure hblock (fun n hends => (Nat.zero_add n).symm ▸ .root hb hfirst hends) hrun
  rw [blockAt_eq_inBlock, BlockReader.result_readTree] at he
  rcases bind_eq_error_iff.1 he with he | ⟨c₁, hfirst, he⟩
  · rcases BlockReader.expect_error he with ⟨hshort, rfl⟩ | ⟨w, next, hw, hne, rfl⟩
    · refine hrunsOut (fun w hword => ?_) (BlockReader.runsOut_of_part .token rfl hshort rfl)
      have hlen : (blob.drop h.structureOffset.toNat).length < 4 := hshort
      have := hword.le_length
      rw [List.length_drop] at hlen
      omega
    · obtain ⟨rest, hrest, -⟩ := Cursor.word_eq_ok_iff.1 hw
      exact .missingBeginNode hb ⟨rest, hrest⟩ hne
  obtain ⟨bs, hbs, rfl⟩ := BlockReader.expect_eq_ok_iff.1 hfirst
  have hword : WordAt blob h.structureOffset.toNat Token.beginNode.word := ⟨bs, hbs⟩
  rcases bind_eq_error_iff.1 he with he | ⟨⟨root, c₂⟩, hopening, he⟩
  · rcases BlockReader.readOpening_error he with hrun | ⟨id, ⟨tail, htail⟩, hnul, hnone, rfl⟩
    · rw [← hbs] at hrun
      exact hrunsOut (fun w hw => hw.unique hword) hrun
    · have htext := textAt_of_word hbs htail hnul
      exact .rootPathMismatch hb hword htext (hb.header.not_storedAs hnone)
  have hstands := BlockReader.stands_of_readOpening hr hopening
  rw [← hbs] at hstands
  rcases bind_eq_error_iff.1 he with he | ⟨⟨root', c₃⟩, hread, he⟩
  · obtain ⟨last, hlast, hstep⟩ := hstands.of_readOpen_error hr he
    exact hb.blames_of_step hstructure hlast hstep
  obtain ⟨front, rest, hblock, rfl, hopens⟩ := hstands.of_readOpen_ok hr hread
  have hopen : OpenAt blob h (h.structureOffset.toNat + front.length) [] := ⟨front, rest, hblock, rfl, hopens⟩
  rcases bind_eq_error_iff.1 he with he | ⟨_, -, he⟩
  · rcases BlockReader.expect_error he with ⟨hshort, rfl⟩ | ⟨w, next, hw, hne, rfl⟩
    · have hlen := length_of_block hstructure hblock
      have hshort : rest.length < 4 := hshort
      show Blames bytes ⟨.truncated, h.structureOffset.toNat + front.length⟩
      exact .truncated (Nat.le_trans (by omega) hb.length_le) (.finish hb hopen (by omega))
    · obtain ⟨tail, rfl, -⟩ := Cursor.word_eq_ok_iff.1 hw
      exact .missingEnd hb hopen ⟨tail, drop_of_block hblock⟩ hne
  · cases he

end Format.Begins

namespace BootInfo

/-- Whatever bytes are refused, the error is borne out by them. -/
theorem ofBlob_error_blames {bytes : Bytes} {e : DecodeError} (he : (ofBlob bytes).result = .error e) :
    Blames bytes e := by
  rw [result_ofBlob] at he
  rcases bind_eq_error_iff.1 he with he | ⟨blob, hblob, he'⟩
  · exact delimited_error he
  clear he
  obtain ⟨rest, size, rfl, hmagic, hword, hsize, hsmallest⟩ := delimited_eq_ok_iff.1 hblob
  rcases bind_eq_error_iff.1 he' with he | ⟨h, hparse, he⟩
  · obtain ⟨version, hversion, hshort, rfl⟩ := Header.parse_error hmagic hsmallest he
    rw [Header.sizeFor_eq, ← hsize] at hshort
    rw [← hsize]
    refine .truncated ?_ (.header (hword.append rest) (hversion.append rest) hshort)
    rw [hsize, List.length_append]
    exact Nat.le_add_right ..
  have hheader := (Header.parse_eq_ok_iff fun size' hword' => hword'.unique hword ▸ hsize).1 hparse
  have hb : Begins (blob ++ rest) blob h := ⟨⟨rest, rfl⟩, hheader⟩
  rcases bind_eq_error_iff.1 he with he | ⟨_, hbounds, he⟩
  · exact hb.blames_of_checkBounds he
  obtain ⟨hreservations, hstructure, -⟩ := (Header.checkBounds_eq_ok_iff hheader.totalSize.1).1 hbounds
  rcases bind_eq_error_iff.1 he with he | ⟨_, -, he⟩
  · exact hb.blames_of_readReservations (Nat.le_of_lt hreservations) he
  rcases bind_eq_error_iff.1 he with he | ⟨_, -, he⟩
  · exact hb.blames_of_readTree (Nat.le_of_lt hstructure) he
  · cases he

/-- A path without a slash hangs off no other; the error leads to the path itself, behind its token. -/
theorem ofBlob_error_blames_noSlash :
    (ofBlob (blobWithChild "abc")).result = .error ⟨.pathMismatch "abc" "/", 60⟩ ∧
      Blames (blobWithChild "abc") ⟨.pathMismatch "abc" "/", 60⟩ := by
  have he : (ofBlob (blobWithChild "abc")).result = .error ⟨.pathMismatch "abc" "/", 60⟩ := by decide +kernel
  exact ⟨he, ofBlob_error_blames he⟩

end BootInfo

end DeviceTree
