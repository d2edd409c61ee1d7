import DeviceTree.Proofs.Delivery

/-!
# Reading from a stream that fails

A stream gives some bytes, in pieces, and then fails; what it would answer after that is of no account. Three reads are
made of it, for the magic number, the total size and the body, and the failure strikes in one of them or in none:

* if the bytes before it do for the blob, or for the error that the magic number or the total size deserves, the stream
  is read as they are, just the needed ones are taken, and the failure is still to come (`left_of_wanted_le`);
* if they do not, all of them are taken and the failure as well (`left_of_lt_wanted`), and it is what is reported, blamed
  on the place where the read began that it struck.

`ofStream_of_failing` says both.
-/

namespace DeviceTree

open BigEndian (word32)

/-- The fault that is reported where a read meets this answer, if the answer is a failure. -/
def StreamEvent.fault? : StreamEvent → Option Fault
  | .cutOff => some .truncated
  | .failure f => some (.stream f)
  | _ => none

/-- How many bytes a reading from a stream needs that gives `b`. Until the first word is there, it is just that one. -/
def needed (b : Bytes) : Nat :=
  if b.length < 4 then 4 else wanted b

variable {b rest : Bytes}

theorem lt_needed_iff : b.length < needed b ↔ b.length < wanted b := by
  unfold needed
  split
  · rename_i hb
    rw [wanted_of_noMagic hb]
    omega
  · rfl

theorem needed_of_wanted_le (h : wanted b ≤ b.length) : needed b = wanted b := by
  refine if_neg fun hb => ?_
  rw [wanted_of_noMagic hb] at h
  omega

namespace Stream

variable {s s' s'' pieces : Stream} {event : StreamEvent} {fault : Fault} {ending : Ending} {n : Nat}

theorem Carries.delivers (h : Carries pieces b) {tail : Stream} (hstops : Stops ending tail) :
    Delivers ending (pieces ++ tail) b :=
  delivers_iff.2 ⟨pieces, tail, rfl, h, hstops⟩

theorem Carries.fill_front {front : Bytes} (h : Carries pieces (front ++ b)) (tail : Stream) :
    ∃ pieces', fill front.length (pieces ++ tail) = ⟨front, .full, pieces' ++ tail⟩ ∧ Carries pieces' b := by
  obtain ⟨pieces', hfill, hpieces'⟩ := h.fill_of_le tail (n := front.length) (by simp)
  rw [List.take_left] at hfill
  rw [List.drop_left] at hpieces'
  exact ⟨pieces', hfill, hpieces'⟩

/-! ## The failure -/

theorem exists_stops (h : event.fault? = some fault) (s : Stream) :
    ∃ ending, Stops ending (event :: s) ∧ ending.fault = fault ∧ ending ≠ .ended := by
  cases event with
  | data _ => cases h
  | interrupted => cases h
  | cutOff =>
    cases h
    exact ⟨.cutOff, .cutOff s, rfl, nofun⟩
  | failure f =>
    cases h
    exact ⟨.failed f, .failed f s, rfl, nofun⟩

theorem fill_failure (h : event.fault? = some fault) (hn : n ≠ 0) (s : Stream) :
    (fill n (event :: s)).rest = s ∧ ∀ offset ended, (fill n (event :: s)).check offset ended = .error ⟨fault, offset⟩ := by
  cases event with
  | data _ => cases h
  | interrupted => cases h
  | cutOff =>
    cases h
    rw [fill, if_neg hn]
    exact ⟨rfl, fun _ _ => rfl⟩
  | failure f =>
    cases h
    rw [fill, if_neg hn]
    exact ⟨rfl, fun _ _ => rfl⟩

/-- A read that meets the failure takes it. -/
theorem Carries.fill_failure (h : Carries pieces b) (hfault : event.fault? = some fault) (hn : b.length < n)
    (s : Stream) :
    (fill n (pieces ++ event :: s)).rest = s ∧
      ∀ offset ended, (fill n (pieces ++ event :: s)).check offset ended = .error ⟨fault, offset⟩ := by
  rw [h.fill_of_lt _ hn]
  exact Stream.fill_failure hfault (by omega) s

/-! ## What is left of the stream -/

/-- `receive`, and what is left of the stream behind it. -/
def receiving (s : Stream) : (Bytes × Except DecodeError Unit) × Stream :=
  let first := fill 4 s
  match first.check 0 0 >>= fun _ => Header.checkMagic first.bytes with
  | .error e => ((first.bytes, .error e), first.rest)
  | .ok _ =>
    let second := fill 4 first.rest
    let front := first.bytes ++ second.bytes
    match second.check 4 4 >>= fun _ => Header.checkTotalSize front with
    | .error e => ((front, .error e), second.rest)
    | .ok size =>
      let body := fill (size.toNat - 8) second.rest
      let blob := front ++ body.bytes
      ((blob, body.check 8 blob.length), body.rest)

theorem receiving_fst (s : Stream) : (receiving s).1 = s.receive := by
  unfold receiving receive
  dsimp only
  cases (fill 4 s).check 0 0 >>= fun _ => Header.checkMagic (fill 4 s).bytes with
  | error e => rfl
  | ok magic =>
    dsimp only
    cases (fill 4 (fill 4 s).rest).check 4 4 >>= fun _ =>
      Header.checkTotalSize ((fill 4 s).bytes ++ (fill 4 (fill 4 s).rest).bytes) with
    | error e => rfl
    | ok size => rfl

/-- What is left of a stream once a blob has been taken from its front. -/
def left (s : Stream) : Stream :=
  (receiving s).2

/-- One reading gives what is taken of the stream and what is left of it. -/
theorem receiving_eq (s : Stream) : receiving s = (s.receive, s.left) :=
  Prod.ext s.receiving_fst rfl

theorem left_of_refused {e : DecodeError} (hfill : fill 4 s = ⟨b, ending, s'⟩)
    (h : ((fill 4 s).check 0 0 >>= fun _ => Header.checkMagic b) = .error e) : left s = s' := by
  rw [hfill] at h
  rw [left, receiving, hfill]
  dsimp only
  rw [h]

/-- Once the magic number has been read, the second word and the body are taken. -/
theorem left_magicNumber (hfill : fill 4 s = ⟨word32 Header.magicNumber, .full, s'⟩) :
    left s =
      match (fill 4 s').check 4 4 >>= fun _ =>
        Header.checkTotalSize (word32 Header.magicNumber ++ (fill 4 s').bytes) with
      | .error _ => (fill 4 s').rest
      | .ok size => (fill (size.toNat - 8) (fill 4 s').rest).rest := by
  have hmagic := Header.checkMagic_magicNumber []
  rw [List.append_nil] at hmagic
  rw [left, receiving, hfill]
  dsimp only [Delivery.check]
  rw [ok_bind, hmagic]
  dsimp only
  split
  · rfl
  · rfl

/-- Once both words have been read, the body is taken, unless the total size is too small. -/
theorem left_words {size : UInt32} (hfirst : fill 4 s = ⟨word32 Header.magicNumber, .full, s'⟩)
    (hsecond : fill 4 s' = ⟨word32 size, .full, s''⟩) :
    left s = if size.toNat < Header.smallestSize then s'' else (fill (size.toNat - 8) s'').rest := by
  have hcheck := Header.checkTotalSize_word Header.magicNumber size []
  rw [List.append_nil] at hcheck
  rw [left_magicNumber hfirst, hsecond]
  dsimp only [Delivery.check]
  rw [ok_bind, hcheck]
  by_cases hsize : size.toNat < Header.smallestSize
  · rw [if_pos hsize, if_pos hsize]
  · rw [if_neg hsize, if_neg hsize]

/-- Where the wanted bytes are there, the others are left and all that the stream holds behind them. -/
theorem left_of_wanted_le (h : Carries pieces b) (hb : wanted b ≤ b.length) (tail : Stream) :
    ∃ pieces', left (pieces ++ tail) = pieces' ++ tail ∧ Carries pieces' (b.drop (wanted b)) := by
  cases sufficient_of_wanted_le hb with
  | @wrongMagic magic hmagic rest =>
    obtain ⟨pieces', hfill, hpieces'⟩ := h.fill_front tail
    rw [BigEndian.length_word32] at hfill
    have hcheck := Header.checkMagic_word magic []
    rw [List.append_nil, if_pos hmagic] at hcheck
    rw [wanted_of_wrongMagic hmagic, List.drop_left' (BigEndian.length_word32 magic)]
    exact ⟨pieces', left_of_refused hfill (by rw [hfill]; exact hcheck), hpieces'⟩
  | @tooSmall size hsize rest =>
    obtain ⟨pieces', hfirst, h⟩ := h.fill_front tail
    obtain ⟨pieces'', hsecond, h⟩ := h.fill_front tail
    rw [BigEndian.length_word32] at hfirst hsecond
    rw [wanted_words, if_pos hsize, ← List.append_assoc, List.drop_left' (by simp)]
    exact ⟨pieces'', by rw [left_words hfirst hsecond, if_pos hsize], h⟩
  | @sized size rest hsize hthere =>
    obtain ⟨pieces', hfirst, h⟩ := h.fill_front tail
    obtain ⟨pieces'', hsecond, h⟩ := h.fill_front tail
    rw [BigEndian.length_word32] at hfirst hsecond
    have hle : 8 ≤ size.toNat := Nat.le_trans (by decide) (Nat.not_lt.1 hsize)
    have hbody : size.toNat - 8 ≤ rest.length := by
      rw [length_word32_append, length_word32_append] at hthere
      omega
    obtain ⟨last, hfill, h⟩ := h.fill_of_le tail hbody
    have hdrop : (word32 Header.magicNumber ++ (word32 size ++ rest)).drop size.toNat =
        rest.drop (size.toNat - 8) := by
      have hfront : (word32 Header.magicNumber ++ word32 size).length = 8 := by simp
      rw [← List.append_assoc, List.drop_append, hfront, List.drop_of_length_le (by omega), List.nil_append]
    rw [wanted_words, if_neg hsize, hdrop]
    exact ⟨last, by rw [left_words hfirst hsecond, if_neg hsize, hfill], h⟩

/-- Where they are not, the failure is taken, and what the stream holds behind it is left. -/
theorem left_of_lt_wanted (h : Carries pieces b) (hb : b.length < wanted b) (hfault : event.fault? = some fault)
    (s : Stream) : left (pieces ++ event :: s) = s := by
  cases lacking_of_lt_wanted hb with
  | noMagic hshort =>
    obtain ⟨hrest, hcheck⟩ := h.fill_failure hfault hshort s
    rw [left_of_refused rfl (by rw [hcheck]; rfl), hrest]
  | @noSize rest hshort =>
    obtain ⟨pieces', hfirst, h⟩ := h.fill_front (event :: s)
    obtain ⟨hrest, hcheck⟩ := h.fill_failure hfault hshort s
    rw [BigEndian.length_word32] at hfirst
    rw [left_magicNumber hfirst, hcheck]
    exact hrest
  | @noBody size rest hsize hshort =>
    obtain ⟨pieces', hfirst, h⟩ := h.fill_front (event :: s)
    obtain ⟨pieces'', hsecond, h⟩ := h.fill_front (event :: s)
    rw [BigEndian.length_word32] at hfirst hsecond
    have hbody : rest.length < size.toNat - 8 := by
      rw [length_word32_append, length_word32_append] at hshort
      omega
    rw [left_words hfirst hsecond, if_neg hsize, (h.fill_failure hfault hbody s).1]

end Stream

namespace BootInfo

variable {pieces : Stream} {event : StreamEvent} {fault : Fault}

/-- A stream gives some bytes, in pieces that are not empty and with interruptions around them, and then fails. If these
bytes are fewer than are needed, the reading fails with the failure of the stream, at the start of the first word, of the
second or of the body, and has taken just these bytes and the failure. If not, it ends as it ends on these bytes in
memory, has taken just the needed ones, and has left the others and the failure. What is taken and what is left are those
of one and the same reading. -/
theorem ofStream_of_failing (h : pieces.Carries b) (hfault : event.fault? = some fault) (s : Stream) :
    Stream.receiving (pieces ++ event :: s) =
      (Stream.receive (pieces ++ event :: s), Stream.left (pieces ++ event :: s)) ∧
    (b.length < needed b →
      ofStream (pieces ++ event :: s) =
          (.ofExcept (.error ⟨fault, if b.length < 4 then 0 else if b.length < 8 then 4 else 8⟩), b.length) ∧
        (Stream.receive (pieces ++ event :: s)).1 = b ∧ Stream.left (pieces ++ event :: s) = s) ∧
    (needed b ≤ b.length →
      ofStream (pieces ++ event :: s) = (ofBlob b, needed b) ∧
        (Stream.receive (pieces ++ event :: s)).1 = b.take (needed b) ∧
        ∃ pieces', Stream.left (pieces ++ event :: s) = pieces' ++ event :: s ∧
          pieces'.Carries (b.drop (needed b))) := by
  obtain ⟨ending, hstops, hending, hnotEnded⟩ := Stream.exists_stops hfault s
  have hdelivers := h.delivers hstops
  have htaken := Stream.receive_taken hdelivers
  have hcount : (ofStream (pieces ++ event :: s)).2 = (Stream.receive (pieces ++ event :: s)).1.length := rfl
  refine ⟨Stream.receiving_eq _, fun hlt => ?_, fun hle => ?_⟩
  · have hlt := lt_needed_iff.1 hlt
    have hresult := ofStream_of_lt_wanted hdelivers hlt
    rw [hending, if_neg hnotEnded] at hresult
    rw [List.take_of_length_le (Nat.le_of_lt hlt)] at htaken
    rw [htaken] at hcount
    exact ⟨Prod.ext hresult hcount, htaken, Stream.left_of_lt_wanted h hlt hfault s⟩
  · have hle : wanted b ≤ b.length := Nat.not_lt.1 fun hlt => Nat.not_lt.2 hle (lt_needed_iff.2 hlt)
    rw [htaken, List.length_take_of_le hle] at hcount
    rw [needed_of_wanted_le hle]
    exact ⟨Prod.ext (ofStream_of_wanted_le hdelivers hle) hcount, htaken, Stream.left_of_wanted_le h hle _⟩

/-- A failure in the second word is blamed on its start; one behind the blob is not met. -/
theorem ofStream_of_failing_emptyRoot :
    ofStream [.data (emptyRoot.take 3), .interrupted, .data ((emptyRoot.drop 3).take 2), .failure .timedOut, .cutOff] =
        (.ofExcept (.error ⟨.stream .timedOut, 4⟩), 5) ∧
      ofStream [.data (emptyRoot ++ [1, 2]), .failure .timedOut] = (ofBlob (emptyRoot ++ [1, 2]), 60) := by
  have hshort : Stream.Carries [.data (emptyRoot.take 3), .interrupted, .data ((emptyRoot.drop 3).take 2)]
      (emptyRoot.take 5) :=
    .data (by decide) (.interrupted (.data (by decide) .nil))
  have hlong : Stream.Carries [.data (emptyRoot ++ [1, 2])] (emptyRoot ++ [1, 2]) := .data (by decide) .nil
  have hfault : (StreamEvent.failure .timedOut).fault? = some (.stream .timedOut) := rfl
  obtain ⟨-, hfails, -⟩ := ofStream_of_failing hshort hfault [.cutOff]
  obtain ⟨-, -, hends⟩ := ofStream_of_failing hlong hfault []
  exact ⟨(hfails (by decide)).1, (hends (by decide)).1⟩

end BootInfo

end DeviceTree
