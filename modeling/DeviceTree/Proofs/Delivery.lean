import DeviceTree.Decode.Stream
import DeviceTree.Proofs.Acceptance

/-!
# Reading from a stream and reading from memory

The bytes of a stream come in pieces, with interruptions between them, and at some point the stream stops, by an end
or by a failure. How the pieces are cut makes no difference: `fill` takes as many bytes as are wanted, or all there are
(`Carries.fill_of_le`, `Carries.fill_of_lt`). How many bytes the reading of a blob wants depends on the first two words
alone (`wanted`), and whether they are there decides what comes of it (`lacking_or_sufficient`):

* `ofStream_of_wanted_le`: where as many bytes are there, the stream is read as the bytes are, however it stops;
* `ofStream_of_lt_wanted`: where they are not, the reading fails as the stream stops;
* `receive_taken`: in both cases just the wanted bytes are taken, as far as they are there.

Reading from memory fails for the lack of the same bytes (`ofBlob_of_lt_wanted`), so an end makes a difference to it in
one place only: inside the first two words it is blamed on the start of the word.
-/

namespace DeviceTree

open BigEndian (word32)

namespace Stream

/-! ## Pieces -/

/-- How a stream stops that has no more bytes to give. -/
inductive Stops : Ending → Stream → Prop where
  | exhausted : Stops .ended []
  /-- An answer without bytes is the end. -/
  | noBytes (s : Stream) : Stops .ended (.data [] :: s)
  | cutOff (s : Stream) : Stops .cutOff (.cutOff :: s)
  | failed (f : StreamFailure) (s : Stream) : Stops (.failed f) (.failure f :: s)

/-- The stream gives just these bytes, in pieces that are not empty and with interruptions around them, and then
stops. -/
inductive Delivers (ending : Ending) : Stream → Bytes → Prop where
  | stops {s : Stream} (h : Stops ending s) : Delivers ending s []
  | interrupted {s : Stream} {b : Bytes} (h : Delivers ending s b) : Delivers ending (.interrupted :: s) b
  | data {s : Stream} {b piece : Bytes} (hpiece : piece ≠ []) (h : Delivers ending s b) :
    Delivers ending (.data piece :: s) (piece ++ b)

/-- The stream gives just these bytes, in pieces that are not empty and with interruptions around them, and holds nothing
else. -/
inductive Carries : Stream → Bytes → Prop where
  | nil : Carries [] []
  | interrupted {s : Stream} {b : Bytes} (h : Carries s b) : Carries (.interrupted :: s) b
  | data {s : Stream} {b piece : Bytes} (hpiece : piece ≠ []) (h : Carries s b) :
    Carries (.data piece :: s) (piece ++ b)

variable {s tail : Stream} {b front : Bytes} {ending : Ending} {n : Nat}

theorem delivers_iff :
    Delivers ending s b ↔ ∃ pieces tail, s = pieces ++ tail ∧ Carries pieces b ∧ Stops ending tail := by
  constructor
  · intro h
    induction h with
    | @stops s hstops => exact ⟨[], s, rfl, .nil, hstops⟩
    | interrupted _ ih =>
      obtain ⟨pieces, tail, rfl, hpieces, hstops⟩ := ih
      exact ⟨_, tail, rfl, .interrupted hpieces, hstops⟩
    | data hpiece _ ih =>
      obtain ⟨pieces, tail, rfl, hpieces, hstops⟩ := ih
      exact ⟨_, tail, rfl, .data hpiece hpieces, hstops⟩
  · rintro ⟨pieces, tail, rfl, hpieces, hstops⟩
    induction hpieces with
    | nil => exact .stops hstops
    | interrupted _ ih => exact .interrupted ih
    | data hpiece _ ih => exact .data hpiece ih

theorem fill_interrupted (hn : n ≠ 0) (s : Stream) : fill n (.interrupted :: s) = fill n s := by
  rw [fill, if_neg hn]

theorem fill_data_le {piece : Bytes} (hpiece : piece ≠ []) (hn : piece.length ≤ n) (s : Stream) :
    fill n (.data piece :: s) =
      { fill (n - piece.length) s with bytes := piece ++ (fill (n - piece.length) s).bytes } := by
  have hpos := List.length_pos_iff.2 hpiece
  rw [fill, if_neg (by omega)]
  dsimp only
  rw [if_neg hpiece, if_pos hn]

theorem fill_data_lt {piece : Bytes} (hn : n < piece.length) (hpos : n ≠ 0) (s : Stream) :
    fill n (.data piece :: s) = ⟨piece.take n, .full, .data (piece.drop n) :: s⟩ := by
  rw [fill, if_neg hpos]
  dsimp only
  rw [if_neg (List.ne_nil_of_length_pos (by omega)), if_neg (by omega)]

/-- What is wanted and there is taken, and no more, whatever the stream holds behind it. -/
theorem Carries.fill_of_le (h : Carries s b) (tail : Stream) :
    ∀ {n : Nat}, n ≤ b.length → ∃ s', fill n (s ++ tail) = ⟨b.take n, .full, s' ++ tail⟩ ∧ Carries s' (b.drop n) := by
  induction h with
  | nil =>
    intro n hn
    obtain rfl : n = 0 := Nat.le_zero.1 hn
    exact ⟨[], fill_zero tail, .nil⟩
  | @interrupted s b h ih =>
    intro n hn
    by_cases hzero : n = 0
    · subst hzero
      exact ⟨.interrupted :: s, fill_zero _, .interrupted h⟩
    · rw [List.cons_append, fill_interrupted hzero]
      exact ih hn
  | @data s b piece hpiece h ih =>
    intro n hn
    by_cases hzero : n = 0
    · subst hzero
      exact ⟨.data piece :: s, fill_zero _, .data hpiece h⟩
    rw [List.cons_append]
    by_cases hle : piece.length ≤ n
    · obtain ⟨s', hfill, hs'⟩ := ih (n := n - piece.length) (by rw [List.length_append] at hn; omega)
      refine ⟨s', ?_, ?_⟩
      · rw [fill_data_le hpiece hle, hfill, List.take_append, List.take_of_length_le hle]
      · rw [List.drop_append, List.drop_of_length_le hle]
        exact hs'
    · have hlt := Nat.lt_of_not_le hle
      refine ⟨.data (piece.drop n) :: s, ?_, ?_⟩
      · rw [fill_data_lt hlt hzero, List.take_append_of_le_length (Nat.le_of_lt hlt)]
        rfl
      · rw [List.drop_append_of_le_length (Nat.le_of_lt hlt)]
        exact .data (List.ne_nil_of_length_pos (by rw [List.length_drop]; omega)) h

/-- Where more is wanted than is there, all of it is taken, and then what the stream holds behind it. -/
theorem Carries.fill_of_lt (h : Carries s b) (tail : Stream) :
    ∀ {n : Nat}, b.length < n →
      fill n (s ++ tail) = { fill (n - b.length) tail with bytes := b ++ (fill (n - b.length) tail).bytes } := by
  induction h with
  | nil => exact fun _ => rfl
  | interrupted _ ih =>
    intro n hn
    rw [List.cons_append, fill_interrupted (by omega)]
    exact ih hn
  | @data s b piece hpiece h ih =>
    intro n hn
    rw [List.length_append] at hn
    rw [List.cons_append, fill_data_le hpiece (by omega), ih (by omega), List.length_append, Nat.sub_sub,
      List.append_assoc]

theorem Stops.fill (h : Stops ending s) (hn : n ≠ 0) : ∃ rest, fill n s = ⟨[], ending, rest⟩ := by
  cases h with
  | exhausted => exact ⟨[], by rw [Stream.fill, if_neg hn]⟩
  | noBytes s => exact ⟨s, by rw [Stream.fill, if_neg hn]; exact if_pos rfl⟩
  | cutOff s => exact ⟨s, by rw [Stream.fill, if_neg hn]⟩
  | failed f s => exact ⟨s, by rw [Stream.fill, if_neg hn]⟩

theorem Delivers.fill_of_le (h : Delivers ending s b) (hn : n ≤ b.length) :
    ∃ rest, fill n s = ⟨b.take n, .full, rest⟩ ∧ Delivers ending rest (b.drop n) := by
  obtain ⟨pieces, tail, rfl, hpieces, hstops⟩ := delivers_iff.1 h
  obtain ⟨s', hfill, hs'⟩ := hpieces.fill_of_le tail hn
  exact ⟨_, hfill, delivers_iff.2 ⟨s', tail, rfl, hs', hstops⟩⟩

theorem Delivers.fill_of_lt (h : Delivers ending s b) (hn : b.length < n) :
    ∃ rest, fill n s = ⟨b, ending, rest⟩ := by
  obtain ⟨pieces, tail, rfl, hpieces, hstops⟩ := delivers_iff.1 h
  obtain ⟨rest, hfill⟩ := hstops.fill (n := n - b.length) (by omega)
  exact ⟨rest, by rw [hpieces.fill_of_lt tail hn, hfill, List.append_nil]⟩

theorem Delivers.fill_front (h : Delivers ending s (front ++ b)) :
    ∃ rest, fill front.length s = ⟨front, .full, rest⟩ ∧ Delivers ending rest b := by
  obtain ⟨rest, hfill, hrest⟩ := h.fill_of_le (n := front.length) (by simp)
  rw [List.take_left] at hfill
  rw [List.drop_left] at hrest
  exact ⟨rest, hfill, hrest⟩

/-! ## Why a delivery is refused -/

/-- The fault of a delivery that is not complete. -/
def Ending.fault : Ending → Fault
  | .failed f => .stream f
  | _ => .truncated

theorem Delivers.check_of_lt (h : Delivers ending s b) (hn : b.length < n) (offset ended : Nat) :
    (fill n s).check offset ended = .error ⟨ending.fault, if ending = .ended then ended else offset⟩ := by
  obtain ⟨rest, hfill⟩ := h.fill_of_lt hn
  rw [hfill]
  clear hfill hn
  induction h with
  | stops h => cases h <;> rfl
  | interrupted _ ih => exact ih
  | data _ _ ih => exact ih

end Stream

/-! ## The first two words -/

namespace Header

theorem fieldAt_word {field : HeaderField} {front : Bytes} (hfront : front.length = field.position) (w : UInt32)
    (rest : Bytes) : fieldAt (front ++ (word32 w ++ rest)) field = .ok w :=
  fieldAt_eq_ok_iff.2 ⟨rest, by rw [← hfront, List.drop_left]⟩

theorem fieldAt_of_short (field : HeaderField) {blob : Bytes} (h : blob.length < field.position + 4) :
    fieldAt blob field = .error ⟨.truncated, blob.length⟩ := by
  have hnone : BigEndian.word32? (blob.drop field.position) = none :=
    BigEndian.word32?_eq_none_iff.2 (by rw [List.length_drop]; omega)
  rw [fieldAt, hnone]

theorem checkMagic_word (magic : UInt32) (rest : Bytes) :
    checkMagic (word32 magic ++ rest) =
      if magic ≠ magicNumber then .error ⟨.invalidMagic magic, 0⟩ else .ok magic := by
  have hfield : fieldAt (word32 magic ++ rest) .magic = .ok magic := @fieldAt_word .magic [] rfl magic rest
  rw [checkMagic, hfield]
  rfl

theorem checkMagic_magicNumber (rest : Bytes) : checkMagic (word32 magicNumber ++ rest) = .ok magicNumber := by
  rw [checkMagic_word]
  exact if_neg fun h => h rfl

theorem checkTotalSize_word (magic size : UInt32) (rest : Bytes) :
    checkTotalSize (word32 magic ++ (word32 size ++ rest)) =
      if size.toNat < smallestSize then .error ⟨.blobTooSmall size, 4⟩ else .ok size := by
  have hfield : fieldAt (word32 magic ++ (word32 size ++ rest)) .totalSize = .ok size :=
    fieldAt_word (BigEndian.length_word32 magic) size rest
  rw [checkTotalSize, hfield]
  rfl

end Header

/-- How many bytes the reading of a blob wants of `b`: those of the magic number, if it is there and wrong; with those
of the total size, if that is not there or too small; or else as many as the total size says. -/
def wanted (b : Bytes) : Nat :=
  match BigEndian.word32? b with
  | none => 8
  | some (magic, rest) =>
    if magic ≠ Header.magicNumber then 4
    else match BigEndian.word32? rest with
      | none => 8
      | some (size, _) => if size.toNat < Header.smallestSize then 8 else size.toNat

variable {b rest : Bytes}

theorem wanted_of_noMagic (h : b.length < 4) : wanted b = 8 := by
  rw [wanted, BigEndian.word32?_eq_none_iff.2 h]

theorem wanted_of_wrongMagic {magic : UInt32} (h : magic ≠ Header.magicNumber) (rest : Bytes) :
    wanted (word32 magic ++ rest) = 4 := by
  rw [wanted, BigEndian.word32?_append]
  exact if_pos h

theorem wanted_of_noSize (h : rest.length < 4) : wanted (word32 Header.magicNumber ++ rest) = 8 := by
  rw [wanted, BigEndian.word32?_append]
  dsimp only
  rw [BigEndian.word32?_eq_none_iff.2 h]
  rfl

theorem wanted_words (size : UInt32) (rest : Bytes) :
    wanted (word32 Header.magicNumber ++ (word32 size ++ rest)) =
      if size.toNat < Header.smallestSize then 8 else size.toNat := by
  rw [wanted, BigEndian.word32?_append]
  dsimp only
  rw [BigEndian.word32?_append]
  rfl

/-- Where a blob ends that has fewer bytes than are wanted. -/
inductive Lacking : Bytes → Prop where
  | noMagic {b : Bytes} (h : b.length < 4) : Lacking b
  | noSize {rest : Bytes} (h : rest.length < 4) : Lacking (word32 Header.magicNumber ++ rest)
  | noBody {size : UInt32} {rest : Bytes} (hsize : ¬size.toNat < Header.smallestSize)
    (h : (word32 Header.magicNumber ++ (word32 size ++ rest)).length < size.toNat) :
    Lacking (word32 Header.magicNumber ++ (word32 size ++ rest))

/-- What the wanted bytes are, where they are there: a wrong magic number, a total size that does not cover the smallest
header, or as many as it says. -/
inductive Sufficient : Bytes → Prop where
  | wrongMagic {magic : UInt32} (h : magic ≠ Header.magicNumber) (rest : Bytes) : Sufficient (word32 magic ++ rest)
  | tooSmall {size : UInt32} (h : size.toNat < Header.smallestSize) (rest : Bytes) :
    Sufficient (word32 Header.magicNumber ++ (word32 size ++ rest))
  | sized {size : UInt32} {rest : Bytes} (hsize : ¬size.toNat < Header.smallestSize)
    (h : size.toNat ≤ (word32 Header.magicNumber ++ (word32 size ++ rest)).length) :
    Sufficient (word32 Header.magicNumber ++ (word32 size ++ rest))

theorem length_word32_append (w : UInt32) (rest : Bytes) : (word32 w ++ rest).length = 4 + rest.length := by
  rw [List.length_append, BigEndian.length_word32]

/-- Going through the first two words. -/
theorem lacking_or_sufficient (b : Bytes) :
    (b.length < wanted b ∧ Lacking b) ∨ (wanted b ≤ b.length ∧ Sufficient b) := by
  cases hmagic : BigEndian.word32? b with
  | none =>
    have hb := BigEndian.word32?_eq_none_iff.1 hmagic
    exact .inl ⟨by rw [wanted_of_noMagic hb]; omega, .noMagic hb⟩
  | some p =>
    obtain ⟨magic, rest⟩ := p
    obtain rfl := BigEndian.word32?_eq_some_iff.1 hmagic
    by_cases hm : magic = Header.magicNumber
    · subst hm
      cases hsize : BigEndian.word32? rest with
      | none =>
        have hrest := BigEndian.word32?_eq_none_iff.1 hsize
        exact .inl ⟨by rw [wanted_of_noSize hrest, length_word32_append]; omega, .noSize hrest⟩
      | some p =>
        obtain ⟨size, rest⟩ := p
        obtain rfl := BigEndian.word32?_eq_some_iff.1 hsize
        by_cases hs : size.toNat < Header.smallestSize
        · refine .inr ⟨?_, .tooSmall hs rest⟩
          rw [wanted_words, if_pos hs, length_word32_append, length_word32_append]
          omega
        · rw [wanted_words, if_neg hs]
          rcases Nat.lt_or_ge (word32 Header.magicNumber ++ (word32 size ++ rest)).length size.toNat with hlt | hle
          · exact .inl ⟨hlt, .noBody hs hlt⟩
          · exact .inr ⟨hle, .sized hs hle⟩
    · exact .inr ⟨by rw [wanted_of_wrongMagic hm, length_word32_append]; omega, .wrongMagic hm rest⟩

theorem lacking_of_lt_wanted (h : b.length < wanted b) : Lacking b :=
  (lacking_or_sufficient b).elim And.right fun hs => absurd hs.1 (Nat.not_le.2 h)

theorem sufficient_of_wanted_le (h : wanted b ≤ b.length) : Sufficient b :=
  (lacking_or_sufficient b).elim (fun hl => absurd hl.1 (Nat.not_lt.2 h)) And.right

/-- Of less than two words, more is wanted just when the first one is the magic number. -/
theorem lt_wanted_iff_of_lt (hle : 4 ≤ b.length) (hlt : b.length < 8) :
    b.length < wanted b ↔ Format.WordAt b 0 Header.magicNumber := by
  refine ⟨fun h => ?_, fun h => ?_⟩
  · cases lacking_of_lt_wanted h with
    | noMagic hb => omega
    | @noSize rest _ => exact ⟨rest, rfl⟩
    | noBody _ _ =>
      rw [length_word32_append, length_word32_append] at hlt
      omega
  · obtain ⟨rest, hb⟩ := h
    obtain rfl : b = word32 Header.magicNumber ++ rest := hb
    rw [length_word32_append] at hlt ⊢
    rw [wanted_of_noSize (by omega)]
    omega

/-! ## Reading from memory -/

theorem delimited_of_noMagic (h : b.length < 4) : delimited b = .error ⟨.truncated, b.length⟩ := by
  rw [delimited, Header.checkMagic, Header.fieldAt_of_short .magic h]
  rfl

theorem delimited_of_wrongMagic {magic : UInt32} (h : magic ≠ Header.magicNumber) (rest : Bytes) :
    delimited (word32 magic ++ rest) = .error ⟨.invalidMagic magic, 0⟩ := by
  rw [delimited, Header.checkMagic_word, if_pos h]
  rfl

theorem delimited_of_noSize (h : rest.length < 4) :
    delimited (word32 Header.magicNumber ++ rest) =
      .error ⟨.truncated, (word32 Header.magicNumber ++ rest).length⟩ := by
  have hshort : (word32 Header.magicNumber ++ rest).length < 8 := by
    rw [length_word32_append]
    omega
  rw [delimited, Header.checkMagic_magicNumber, Header.checkTotalSize, Header.fieldAt_of_short .totalSize hshort]
  rfl

theorem delimited_of_tooSmall {size : UInt32} (h : size.toNat < Header.smallestSize) (rest : Bytes) :
    delimited (word32 Header.magicNumber ++ (word32 size ++ rest)) = .error ⟨.blobTooSmall size, 4⟩ := by
  rw [delimited, Header.checkMagic_magicNumber, Header.checkTotalSize_word, if_pos h]
  rfl

theorem delimited_of_sized {size : UInt32} (h : ¬size.toNat < Header.smallestSize) (rest : Bytes) :
    delimited (word32 Header.magicNumber ++ (word32 size ++ rest)) =
      match (word32 Header.magicNumber ++ (word32 size ++ rest)).split? size.toNat with
      | some (blob, _) => .ok blob
      | none => .error ⟨.truncated, (word32 Header.magicNumber ++ (word32 size ++ rest)).length⟩ := by
  rw [delimited, Header.checkMagic_magicNumber, Header.checkTotalSize_word, if_neg h]
  rfl

/-- Bytes that are fewer than wanted do not do. -/
theorem delimited_of_lt_wanted (h : b.length < wanted b) : delimited b = .error ⟨.truncated, b.length⟩ := by
  cases lacking_of_lt_wanted h with
  | noMagic hb => exact delimited_of_noMagic hb
  | noSize hrest => exact delimited_of_noSize hrest
  | noBody hsize hb => rw [delimited_of_sized hsize, Bytes.split?_eq_none_iff.2 hb]

theorem delimited_delimited {blob : Bytes} (h : delimited b = .ok blob) : delimited blob = .ok blob := by
  obtain ⟨_, size, -, hmagic, hsize, hlen, hsmallest⟩ := delimited_eq_ok_iff.1 h
  exact delimited_eq_ok_iff.2 ⟨[], size, (List.append_nil blob).symm, hmagic, hsize, hlen, hsmallest⟩

/-- Bytes after those that are wanted do not count. -/
theorem delimited_take_wanted (b : Bytes) : delimited (b.take (wanted b)) = delimited b := by
  rcases Nat.lt_or_ge b.length (wanted b) with hlt | hle
  · rw [List.take_of_length_le (Nat.le_of_lt hlt)]
  cases sufficient_of_wanted_le hle with
  | @wrongMagic magic hmagic rest =>
    have hword := delimited_of_wrongMagic hmagic []
    rw [List.append_nil] at hword
    rw [wanted_of_wrongMagic hmagic, List.take_left' (BigEndian.length_word32 _), delimited_of_wrongMagic hmagic, hword]
  | @tooSmall size hsize rest =>
    have htake : (word32 Header.magicNumber ++ (word32 size ++ rest)).take 8 =
        word32 Header.magicNumber ++ (word32 size ++ []) := by
      rw [← List.append_assoc, List.take_left' (by simp), List.append_nil]
    rw [wanted_words, if_pos hsize, htake, delimited_of_tooSmall hsize, delimited_of_tooSmall hsize]
  | @sized size rest hsize hb =>
    have hblob := delimited_of_sized hsize rest
    rw [Bytes.split?_of_le hb] at hblob
    rw [wanted_words, if_neg hsize, delimited_delimited hblob, hblob]

namespace BootInfo

theorem ofBlob_of_delimited_error {e : DecodeError} (h : delimited b = .error e) :
    ofBlob b = .ofExcept (.error e) := by
  rw [ofBlob, h]
  rfl

theorem ofBlob_of_lt_wanted (h : b.length < wanted b) : ofBlob b = .ofExcept (.error ⟨.truncated, b.length⟩) :=
  ofBlob_of_delimited_error (delimited_of_lt_wanted h)

theorem ofBlob_take_wanted (b : Bytes) : ofBlob (b.take (wanted b)) = ofBlob b := by
  rw [ofBlob, delimited_take_wanted]
  rfl

end BootInfo

/-! ## Reading from a stream -/

namespace Stream

variable {s : Stream} {ending : Ending}

theorem receive_of_noMagic (h : Delivers ending s b) (hb : b.length < 4) :
    s.receive = (b, .error ⟨ending.fault, 0⟩) := by
  have hcheck := h.check_of_lt hb 0 0
  obtain ⟨rest, hfill⟩ := h.fill_of_lt hb
  rw [hfill, ite_self] at hcheck
  rw [receive, hfill]
  dsimp only
  rw [hcheck]
  rfl

theorem receive_of_wrongMagic {magic : UInt32} (h : Delivers ending s (word32 magic ++ rest))
    (hmagic : magic ≠ Header.magicNumber) :
    s.receive = (word32 magic, .error ⟨.invalidMagic magic, 0⟩) := by
  obtain ⟨s', hfill, -⟩ := h.fill_front
  have hcheck := Header.checkMagic_word magic []
  rw [List.append_nil, if_pos hmagic] at hcheck
  rw [receive, ← BigEndian.length_word32 magic, hfill]
  dsimp only
  rw [hcheck]
  rfl

/-- Once the magic number has been read, the size and the body are left. -/
theorem receive_magicNumber (h : Delivers ending s (word32 Header.magicNumber ++ rest)) :
    ∃ s', Delivers ending s' rest ∧ s.receive =
      match (fill 4 s').check 4 4 >>= fun _ =>
        Header.checkTotalSize (word32 Header.magicNumber ++ (fill 4 s').bytes) with
      | .error e => (word32 Header.magicNumber ++ (fill 4 s').bytes, .error e)
      | .ok size =>
        let body := fill (size.toNat - 8) (fill 4 s').rest
        let blob := word32 Header.magicNumber ++ (fill 4 s').bytes ++ body.bytes
        (blob, body.check 8 blob.length) := by
  obtain ⟨s', hfill, hrest⟩ := h.fill_front
  have hcheck := Header.checkMagic_magicNumber []
  rw [List.append_nil] at hcheck
  rw [BigEndian.length_word32] at hfill
  refine ⟨s', hrest, ?_⟩
  rw [receive, hfill]
  dsimp only
  rw [hcheck]
  rfl

theorem receive_of_noSize (h : Delivers ending s (word32 Header.magicNumber ++ rest)) (hrest : rest.length < 4) :
    s.receive = (word32 Header.magicNumber ++ rest, .error ⟨ending.fault, 4⟩) := by
  obtain ⟨s', h, hreceive⟩ := receive_magicNumber h
  have hcheck := h.check_of_lt hrest 4 4
  obtain ⟨s'', hfill⟩ := h.fill_of_lt hrest
  rw [hfill, ite_self] at hcheck
  rw [hreceive, hfill, hcheck]
  rfl

theorem receive_words {size : UInt32}
    (h : Delivers ending s (word32 Header.magicNumber ++ (word32 size ++ rest))) :
    ∃ s', Delivers ending s' rest ∧ s.receive =
      if size.toNat < Header.smallestSize then
        (word32 Header.magicNumber ++ word32 size, .error ⟨.blobTooSmall size, 4⟩)
      else
        let body := fill (size.toNat - 8) s'
        let blob := word32 Header.magicNumber ++ word32 size ++ body.bytes
        (blob, body.check 8 blob.length) := by
  obtain ⟨s', h, hreceive⟩ := receive_magicNumber h
  obtain ⟨s'', hfill, h⟩ := h.fill_front
  have hcheck := Header.checkTotalSize_word Header.magicNumber size []
  rw [List.append_nil] at hcheck
  rw [BigEndian.length_word32] at hfill
  refine ⟨s'', h, ?_⟩
  rw [hreceive, hfill]
  dsimp only [Delivery.check]
  rw [ok_bind, hcheck]
  by_cases hsize : size.toNat < Header.smallestSize
  · rw [if_pos hsize, if_pos hsize]
  · rw [if_neg hsize, if_neg hsize]

/-- Where the bytes that are wanted are there, they are taken, and refused as memory would refuse them. -/
theorem receive_of_wanted_le (h : Delivers ending s b) (hb : wanted b ≤ b.length) :
    s.receive = (b.take (wanted b), (delimited b).map fun _ => ()) := by
  cases sufficient_of_wanted_le hb with
  | wrongMagic hmagic rest =>
    rw [receive_of_wrongMagic h hmagic, wanted_of_wrongMagic hmagic, delimited_of_wrongMagic hmagic,
      List.take_left' (BigEndian.length_word32 _)]
    rfl
  | tooSmall hsize rest =>
    obtain ⟨s', -, hreceive⟩ := receive_words h
    rw [hreceive, if_pos hsize, wanted_words, if_pos hsize, delimited_of_tooSmall hsize, ← List.append_assoc,
      List.take_left' (by simp)]
    rfl
  | @sized size rest hsize hthere =>
    obtain ⟨s', h, hreceive⟩ := receive_words h
    have hle : 8 ≤ size.toNat := Nat.le_trans (by decide) (Nat.not_lt.1 hsize)
    have hbody : size.toNat - 8 ≤ rest.length := by
      rw [length_word32_append, length_word32_append] at hthere
      omega
    obtain ⟨s'', hfill, -⟩ := h.fill_of_le hbody
    have htake : (word32 Header.magicNumber ++ (word32 size ++ rest)).take size.toNat =
        word32 Header.magicNumber ++ word32 size ++ rest.take (size.toNat - 8) := by
      have hfront : (word32 Header.magicNumber ++ word32 size).length = 8 := by simp
      rw [← List.append_assoc, List.take_append, hfront, List.take_of_length_le (by omega)]
    rw [hreceive, if_neg hsize, hfill, wanted_words, if_neg hsize, delimited_of_sized hsize, Bytes.split?_of_le hthere,
      htake]
    rfl

/-- Where they are not, all are taken, and what is missing is blamed on how the stream stops. -/
theorem receive_of_lt_wanted (h : Delivers ending s b) (hb : b.length < wanted b) :
    s.receive = (b, .error ⟨ending.fault,
      if b.length < 4 then 0 else if b.length < 8 then 4 else if ending = .ended then b.length else 8⟩) := by
  cases lacking_of_lt_wanted hb with
  | noMagic hshort => rw [receive_of_noMagic h hshort, if_pos hshort]
  | @noSize rest hrest =>
    have hlen := length_word32_append Header.magicNumber rest
    rw [receive_of_noSize h hrest, if_neg (by omega), if_pos (by omega)]
  | @noBody size rest hsize hshort =>
    obtain ⟨s', h, hreceive⟩ := receive_words h
    have hlen : (word32 Header.magicNumber ++ (word32 size ++ rest)).length = 4 + (4 + rest.length) := by
      rw [length_word32_append, length_word32_append]
    have hbody : rest.length < size.toNat - 8 := by omega
    have hcheck := h.check_of_lt hbody 8 (word32 Header.magicNumber ++ (word32 size ++ rest)).length
    obtain ⟨s'', hfill⟩ := h.fill_of_lt hbody
    rw [hfill] at hcheck
    rw [hreceive, if_neg hsize, hfill, if_neg (by omega), if_neg (by omega)]
    dsimp only
    rw [List.append_assoc, hcheck]

/-- Just the bytes that are wanted are taken, as far as they are there. -/
theorem receive_taken (h : Delivers ending s b) : s.receive.1 = b.take (wanted b) := by
  rcases Nat.lt_or_ge b.length (wanted b) with hlt | hle
  · rw [receive_of_lt_wanted h hlt, List.take_of_length_le (Nat.le_of_lt hlt)]
  · rw [receive_of_wanted_le h hle]

end Stream

namespace BootInfo

variable {s : Stream} {ending : Stream.Ending}

/-- Where the bytes that are wanted are there, the stream is read as they are, however it stops behind them. -/
theorem ofStream_of_wanted_le (h : s.Delivers ending b) (hb : wanted b ≤ b.length) : (ofStream s).1 = ofBlob b := by
  rw [ofStream, Stream.receive_of_wanted_le h hb, ← ofBlob_take_wanted b]
  cases hblob : delimited b with
  | ok blob => rfl
  | error e =>
    rw [ofBlob_of_delimited_error (by rw [delimited_take_wanted, hblob])]
    rfl

/-- Where they are not, the reading fails as the stream stops. -/
theorem ofStream_of_lt_wanted (h : s.Delivers ending b) (hb : b.length < wanted b) :
    (ofStream s).1 = .ofExcept (.error ⟨ending.fault,
      if b.length < 4 then 0 else if b.length < 8 then 4 else if ending = .ended then b.length else 8⟩) := by
  rw [ofStream, Stream.receive_of_lt_wanted h hb]
  rfl

/-- A stream that gives some bytes and is over then is read as they are, with the same boot information, error and
notices, whatever the pieces and the interruptions. Only where the bytes end inside the first word, or inside the second
after the magic number, the error is blamed on the start of that word and not on the end of the bytes. -/
theorem ofStream_of_delivers (h : s.Delivers .ended b) :
    (¬b.length < 4 → ¬(b.length < 8 ∧ Format.WordAt b 0 Header.magicNumber) → (ofStream s).1 = ofBlob b) ∧
    (b.length < 4 → (ofStream s).1 = .ofExcept (.error ⟨.truncated, 0⟩) ∧
      ofBlob b = .ofExcept (.error ⟨.truncated, b.length⟩)) ∧
    (4 ≤ b.length → b.length < 8 → Format.WordAt b 0 Header.magicNumber →
      (ofStream s).1 = .ofExcept (.error ⟨.truncated, 4⟩) ∧ ofBlob b = .ofExcept (.error ⟨.truncated, b.length⟩)) ∧
    s.receive.1 = b.take (wanted b) ∧ (ofStream s).2 = min b.length (wanted b) := by
  have htaken := Stream.receive_taken h
  refine ⟨fun hfirst hsecond => ?_, fun hfirst => ?_, fun hfirst hsecond hmagic => ?_, htaken, ?_⟩
  · rcases Nat.lt_or_ge b.length (wanted b) with hlt | hle
    · -- both lack the same bytes, and both blame the end of those that are there
      have hlong : ¬b.length < 8 := fun hshort =>
        hsecond ⟨hshort, (lt_wanted_iff_of_lt (Nat.not_lt.1 hfirst) hshort).1 hlt⟩
      rw [ofStream_of_lt_wanted h hlt, ofBlob_of_lt_wanted hlt, if_neg hfirst, if_neg hlong, if_pos rfl]
      rfl
    · exact ofStream_of_wanted_le h hle
  · have hlt : b.length < wanted b := by
      rw [wanted_of_noMagic hfirst]
      omega
    rw [ofStream_of_lt_wanted h hlt, if_pos hfirst]
    exact ⟨rfl, ofBlob_of_lt_wanted hlt⟩
  · have hlt := (lt_wanted_iff_of_lt hfirst hsecond).2 hmagic
    rw [ofStream_of_lt_wanted h hlt, if_neg (Nat.not_lt.2 hfirst), if_pos hsecond]
    exact ⟨rfl, ofBlob_of_lt_wanted hlt⟩
  · have hlen : (ofStream s).2 = s.receive.1.length := rfl
    rw [hlen, htaken, List.length_take, Nat.min_comm]

/-- A blob of version 1 with a root and nothing in it. -/
def emptyRoot : Bytes :=
  [Header.magicNumber, 60, 44, 60, 28, 1, 1, 0, 0, 0, 0, 1, 0x2F000000, 2, 9].flatMap word32

theorem ofStream_of_delivers_emptyRoot :
    (ofStream [.data (emptyRoot.take 6), .interrupted, .data (emptyRoot.drop 6 ++ [1, 2, 3]), .data []]).1 =
        ofBlob (emptyRoot ++ [1, 2, 3]) ∧
      (ofStream [.data (emptyRoot.take 6), .interrupted, .data (emptyRoot.drop 6 ++ [1, 2, 3]), .data []]).2 = 60 := by
  have h : Stream.Delivers .ended
      [.data (emptyRoot.take 6), .interrupted, .data (emptyRoot.drop 6 ++ [1, 2, 3]), .data []]
      (emptyRoot ++ [1, 2, 3]) :=
    .data (by decide) (.interrupted (.data (by decide) (.stops (.noBytes []))))
  obtain ⟨hread, -, -, -, htaken⟩ := ofStream_of_delivers h
  exact ⟨hread (by decide) fun hshort => absurd hshort.1 (by decide), htaken.trans (by decide)⟩

end BootInfo

end DeviceTree
