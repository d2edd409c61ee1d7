import DeviceTree.Decode.Stream
import DeviceTree.Proofs.WindowReader

/-!
# Reading never ends in a trap

The reader of a blob and of a stream, by positions (`Run.ofBlob`, `Run.ofStream`). The header is read from a copy that
is filled up with zeros, and the bounds in it put every block into the blob, so each window starts in its block.

* `reading_never_traps`: what is read by positions is what is read by cursors, for any bytes and any stream.
-/

namespace DeviceTree

namespace Run

/-- The reservations of the map at the window, up to an entry of size zero, for a number of entries at most. -/
def readReservations : (entries : Nat) → Window → Run (List Reservation)
  | 0, _ => throw (.trap .endless)
  | entries + 1, w => do
    let (entry, next) ← w.take Reservation.entrySize
    let r := Reservation.ofBytes entry
    if r.size = 0 then return [] else return r :: (← readReservations entries next)

/-- The bytes of the longest header, copied from the blob over zeros as far as the blob goes. -/
def headerBytes (blob : Bytes) : Run Bytes := do
  let zeros : Bytes := List.replicate 36 0
  let available := min blob.length zeros.length
  let target ← slice zeros 0 available
  let source ← slice blob 0 available
  if target.length = source.length then return source ++ zeros.drop available
  else throw (.trap .unequalLengths)

/-- The word of a field in the bytes of the longest header. -/
def fieldOf (header : Bytes) (field : HeaderField) : UInt32 :=
  .ofNat (BigEndian.value ((header.drop field.position).take 4))

/-- Reads the header at the start of `blob`. -/
def parseHeader (blob : Bytes) : Run Header := do
  let magic ← ofExcept (Header.checkMagic blob)
  ofExcept (Header.requireLength Header.smallestSize blob)
  let header ← headerBytes blob
  let version := fieldOf header .version
  if min blob.length 36 < Header.sizeFor version then throw (.fault ⟨.truncated, blob.length⟩)
  return {
    magic
    totalSize := fieldOf header .totalSize
    structureOffset := fieldOf header .structureOffset
    stringsOffset := fieldOf header .stringsOffset
    reservationsOffset := fieldOf header .reservationsOffset
    version
    lastCompatible := fieldOf header .lastCompatible
    bootCpuid := if 2 ≤ version then some (fieldOf header .bootCpuid) else none
    stringsSize := if 3 ≤ version then some (fieldOf header .stringsSize) else none }

/-- Reads the boot information of a blob. -/
def ofBlob (bytes : Bytes) : Run BootInfo := do
  let blob ← ofExcept (delimited bytes)
  let h ← parseHeader blob
  ofExcept h.checkBounds
  let map ← Window.start blob h.reservationsOffset.toNat blob.length
  let reservations ← readReservations (map.limit - map.pos + 1) map
  let block ← Window.start blob h.structureOffset.toNat blob.length
  let strings ← Window.start blob h.stringsOffset.toNat h.stringsEnd
  let root ← (⟨h.features, strings⟩ : WindowReader).readTree block
  return { root, reservations }

/-- Takes the bytes of one blob from the front of a stream. Their start goes to two parts of a buffer of eight
bytes. -/
def receive (s : Stream) : Run Bytes := do
  let buffer : Bytes := List.replicate 8 0
  let first := s.fill (← slice buffer 0 4).length
  let _ ← ofExcept (first.check 0 0 >>= fun _ => Header.checkMagic first.bytes)
  let second := first.rest.fill (← slice buffer 4 8).length
  let front := first.bytes ++ second.bytes
  let size ← ofExcept (second.check 4 4 >>= fun _ => Header.checkTotalSize front)
  let body := second.rest.fill (← sub size.toNat buffer.length)
  let blob := front ++ body.bytes
  ofExcept (body.check 8 blob.length)
  return blob

/-- Reads boot information from the front of a stream. -/
def ofStream (s : Stream) : Run BootInfo := do
  ofBlob (← receive s)

theorem readReservations_agrees (entries : Nat) :
    ∀ w : Window, w.Sound → w.cursor.rest.length < entries →
      Agrees (fun _ => True) id (readReservations entries w) (DeviceTree.readReservations w.cursor) := by
  induction entries with
  | zero => exact fun _ _ h => absurd h (Nat.not_lt_zero _)
  | succ entries ih =>
    intro w h hlength
    rw [readReservations_eq]
    unfold readReservations
    refine (w.take_agrees h _).bind fun ⟨entry, next⟩ htaken => ?_
    obtain ⟨-, hforward, hahead⟩ : entry.length = 16 ∧ next = w.forward 16 ∧ w.Ahead next := htaken
    have hnext : next.cursor.rest.length < entries := by
      have hpos : next.pos = w.pos + 16 := by
        rw [hforward]
        rfl
      have hin := hahead.sound.inBlock.2.1
      rw [h.length_rest] at hlength
      rw [hahead.sound.length_rest, hahead.limit]
      rw [hahead.limit] at hin
      omega
    dsimp only
    split
    · exact .ok (a := []) trivial
    · exact (ih next hahead.sound hnext).map fun _ _ => ⟨trivial, rfl⟩

theorem headerBytes_eq (blob : Bytes) :
    ∃ header, headerBytes blob = .ok header ∧ header.take (min blob.length 36) = blob.take (min blob.length 36) := by
  have htarget : slice (List.replicate 36 0) 0 (min blob.length 36) =
      .ok (List.replicate (min blob.length 36) 0) := by
    rw [slice_eq_ok (Nat.zero_le _) (by rw [List.length_replicate]; exact Nat.min_le_right ..), List.take_replicate,
      Nat.min_eq_left (Nat.min_le_right ..)]
    rfl
  have hsource : slice blob 0 (min blob.length 36) = .ok (blob.take (min blob.length 36)) :=
    slice_eq_ok (Nat.zero_le _) (Nat.min_le_left ..)
  have hlength : (blob.take (min blob.length 36)).length = min blob.length 36 :=
    List.length_take_of_le (Nat.min_le_left ..)
  refine ⟨blob.take (min blob.length 36) ++ (List.replicate 36 0).drop (min blob.length 36), ?_,
    List.take_left' hlength⟩
  unfold headerBytes
  dsimp only
  rw [List.length_replicate, htarget, ok_bind, hsource, ok_bind, hlength, List.length_replicate, if_pos rfl]
  rfl

/-- A field of the header that the blob reaches to is read from the copy. -/
theorem fieldAt_eq {blob header : Bytes} {field : HeaderField}
    (h : header.take (min blob.length 36) = blob.take (min blob.length 36))
    (hfield : field.position + 4 ≤ min blob.length 36) :
    Header.fieldAt blob field = .ok (fieldOf header field) := by
  have htake (bs : Bytes) :
      (bs.drop field.position).take 4 = ((bs.take (min blob.length 36)).drop field.position).take 4 := by
    rw [List.drop_take, List.take_take, Nat.min_eq_left (by omega)]
  have hword : BigEndian.word32? (blob.drop field.position) =
      some (fieldOf header field, (blob.drop field.position).drop 4) := by
    unfold BigEndian.word32? fieldOf
    rw [Bytes.split?_of_le (by rw [List.length_drop]; omega), htake header, h, ← htake blob]
    rfl
  unfold Header.fieldAt
  rw [hword]

theorem optionalFieldAt_eq {blob header : Bytes} {present : Prop} [Decidable present] {field : HeaderField}
    (h : header.take (min blob.length 36) = blob.take (min blob.length 36))
    (hfield : present → field.position + 4 ≤ min blob.length 36) :
    Header.optionalFieldAt blob present field = .ok (if present then some (fieldOf header field) else none) := by
  unfold Header.optionalFieldAt
  split
  · rename_i hpresent
    rw [fieldAt_eq h (hfield hpresent)]
    rfl
  · rfl

theorem parseHeader_agrees (blob : Bytes) : Agrees (fun _ => True) id (parseHeader blob) (Header.parse blob) := by
  unfold parseHeader Header.parse
  refine (agrees_ofExcept _).bind fun magic _ => ?_
  refine (agrees_ofExcept _).bind fun _ hsmallest => ?_
  have hlength : 28 ≤ blob.length := Header.requireLength_eq_ok_iff.1 hsmallest
  obtain ⟨header, hheader, htake⟩ := headerBytes_eq blob
  have hfield (field : HeaderField) (h : field.position + 4 ≤ 28) :
      Header.fieldAt blob field = .ok (fieldOf header field) := fieldAt_eq htake (by omega)
  rw [hheader, ok_bind, hfield .version (by decide), ok_bind]
  generalize fieldOf header .version = version
  obtain ⟨-, hlongest, h2, h3⟩ := Header.sizeFor_bounds version
  dsimp only
  by_cases hfits : min blob.length 36 < Header.sizeFor version
  · have hrequire : Header.requireLength (Header.sizeFor version) blob = .error ⟨.truncated, blob.length⟩ :=
      if_pos (by omega)
    rw [if_pos hfits, hrequire]
    exact .fault _
  · have hrequire : Header.requireLength (Header.sizeFor version) blob = .ok () := if_neg (by omega)
    have hcpuid : 2 ≤ version → HeaderField.bootCpuid.position + 4 ≤ min blob.length 36 := fun h => by
      have := h2 h
      simp only [HeaderField.position]
      omega
    have hstrings : 3 ≤ version → HeaderField.stringsSize.position + 4 ≤ min blob.length 36 := fun h => by
      have := h3 h
      simp only [HeaderField.position]
      omega
    rw [if_neg hfits, hrequire, ok_bind, hfield .totalSize (by decide), ok_bind, hfield .structureOffset (by decide),
      ok_bind, hfield .stringsOffset (by decide), ok_bind, hfield .reservationsOffset (by decide), ok_bind,
      hfield .lastCompatible (by decide), ok_bind, optionalFieldAt_eq htake hcpuid, ok_bind,
      optionalFieldAt_eq htake hstrings, ok_bind]
    exact .ok trivial

/-- The window of a block that runs to the end of the blob. -/
theorem startAt_eq {blob : Bytes} {offset : UInt32} (h : offset.toNat < blob.length) (hsize : blob.length < 0x100000000) :
    ∃ w, Window.start blob offset.toNat blob.length = .ok w ∧ w.Sound ∧ w.Aligned ∧
      w.cursor = blockAt blob offset := by
  have hbase : offset.toNat ≤ min blob.length blob.length := by
    rw [Nat.min_self]
    exact Nat.le_of_lt h
  obtain ⟨w, hw, hsound, haligned, -, hcursor, -⟩ := Window.start_eq hbase hsize
  rw [List.take_length] at hcursor
  exact ⟨w, hw, hsound, haligned, hcursor⟩

theorem ofBlob_agrees (bytes : Bytes) : Agrees (fun _ => True) id (ofBlob bytes) (BootInfo.ofBlob bytes).result := by
  rw [BootInfo.result_ofBlob]
  unfold ofBlob
  refine (agrees_ofExcept _).bind fun blob hblob => ?_
  refine (parseHeader_agrees blob).and_eq.bind fun h ⟨_, hparse⟩ => ?_
  refine (agrees_ofExcept _).bind fun _ hchecked => ?_
  simp only [id_eq] at hparse ⊢
  obtain ⟨_, size, rfl, -, hword, hlength, -⟩ := delimited_eq_ok_iff.1 hblob
  have hheader := (Header.parse_eq_ok_iff fun size' hword' => hword'.unique hword ▸ hlength).1 hparse
  have htotal := hheader.totalSize.1
  have hsize : blob.length < 0x100000000 := hlength ▸ size.toNat_lt
  obtain ⟨hr, hs, hst, hend⟩ := (Header.checkBounds_eq_ok_iff htotal).1 hchecked
  rw [← Header.stringsEnd_eq htotal] at hend
  have hends : h.stringsOffset.toNat ≤ h.stringsEnd := by
    unfold Header.stringsEnd
    split
    · exact Nat.le_add_right ..
    · rw [htotal]
      exact hst
  obtain ⟨map, hmap, hmapSound, -, hmapCursor⟩ := startAt_eq hr hsize
  obtain ⟨block, hblock, hblockSound, hblockAligned, hblockCursor⟩ := startAt_eq hs hsize
  obtain ⟨strings, hstrings, hstringsSound, -, -, -, hstringBlock⟩ :=
    Window.start_eq (Nat.le_min.2 ⟨hends, hst⟩) hsize
  have hreader : (⟨h.features, strings⟩ : WindowReader).reader = ⟨h.features, stringBlock blob h⟩ := by
    rw [WindowReader.reader, hstringBlock]
    rfl
  rw [hmap, ok_bind, ← hmapCursor]
  refine (readReservations_agrees _ map hmapSound (Nat.lt_succ_of_le (Nat.le_of_eq hmapSound.length_rest))).bind
    fun reservations _ => ?_
  rw [hblock, ok_bind, hstrings, ok_bind, ← hreader, ← hblockCursor]
  exact (WindowReader.readTree_agrees hstringsSound hblockSound hblockAligned).bind fun root _ => .ok trivial

theorem receive_agrees (s : Stream) :
    Agrees (fun _ => True) id (receive s) (s.receive.2.map fun _ => s.receive.1) := by
  have hfirst : slice (List.replicate 8 0) 0 4 = .ok (List.replicate 4 0) := rfl
  have hsecond : slice (List.replicate 8 0) 4 8 = .ok (List.replicate 4 0) := rfl
  unfold receive Stream.receive
  dsimp only
  rw [hfirst, ok_bind, hsecond]
  simp only [List.length_replicate]
  generalize s.fill 4 = first
  cases hmagic : first.check 0 0 >>= fun _ => Header.checkMagic first.bytes with
  | error e => exact .fault e
  | ok _ =>
    rw [ofExcept_ok, ok_bind, ok_bind, List.length_replicate]
    dsimp only
    generalize first.rest.fill 4 = second
    cases htotal : second.check 4 4 >>= fun _ => Header.checkTotalSize (first.bytes ++ second.bytes) with
    | error e => exact .fault e
    | ok size =>
      have hsize : 28 ≤ size.toNat := by
        obtain ⟨_, -, hsize⟩ := bind_eq_ok_iff.1 htotal
        exact (Header.checkTotalSize_eq_ok_iff.1 hsize).2
      rw [ofExcept_ok, ok_bind, sub_eq_ok (by omega), ok_bind]
      dsimp only
      generalize second.rest.fill (size.toNat - 8) = body
      cases body.check 8 (first.bytes ++ second.bytes ++ body.bytes).length with
      | error e => exact .fault e
      | ok _ => exact .ok trivial

theorem ofStream_agrees (s : Stream) : Agrees (fun _ => True) id (ofStream s) (BootInfo.ofStream s).1.result := by
  have hresult : (BootInfo.ofStream s).1.result =
      (s.receive.2.map fun _ => s.receive.1) >>= fun blob => (BootInfo.ofBlob blob).result := by
    unfold BootInfo.ofStream
    simp only [Outcome.result_bind]
    cases s.receive.2 <;> rfl
  rw [hresult]
  exact (receive_agrees s).bind fun blob _ => ofBlob_agrees blob

end Run

namespace BootInfo

/-- Read by positions, any bytes and any stream give what they give read by cursors, a result or a fault of the blob,
and never a trap: no window leaves its block, no word is read off a multiple of four, no slice is out of range or
inside a character, no number leaves its 64 bits, and every loop ends. -/
theorem reading_never_traps :
    (∀ bytes : Bytes, Run.ofBlob bytes = .ofExcept (ofBlob bytes).result ∧
      ∀ t, Run.ofBlob bytes ≠ .error (.trap t)) ∧
    (∀ s : Stream, Run.ofStream s = .ofExcept (ofStream s).1.result ∧
      ∀ t, Run.ofStream s ≠ .error (.trap t)) :=
  ⟨fun bytes => ⟨(Run.ofBlob_agrees bytes).eq_ofExcept, (Run.ofBlob_agrees bytes).ne_trap⟩,
    fun s => ⟨(Run.ofStream_agrees s).eq_ofExcept, (Run.ofStream_agrees s).ne_trap⟩⟩

end BootInfo

end DeviceTree
