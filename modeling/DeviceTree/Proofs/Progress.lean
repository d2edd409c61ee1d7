import DeviceTree.Proofs.Acceptance

/-!
# Reading comes to an end

Whatever is read moves the cursor on inside its block: by as many bytes as it is long at least, and never past the
end of the block (`Cursor.Advances`). So the two loops of a reading, over the entries of the reservation map and over
the tokens of the structure block, go on for a bounded number of rounds (`Steps`), each of which takes bytes of its
own.

* `readReservations_ends`, `readOpen_ends`: what the loops give is what they come to after so many rounds.
-/

namespace DeviceTree

/-- `n` steps of a relation lead from one to the other. -/
inductive Steps {α : Type} (R : α → α → Prop) : Nat → α → α → Prop where
  | zero (a : α) : Steps R 0 a a
  | succ {n : Nat} {a b c : α} (step : R a b) (more : Steps R n b c) : Steps R (n + 1) a c

/-! ## Cursors -/

namespace Cursor

/-- Where the block ends. -/
def limit (c : Cursor) : Nat :=
  c.pos + c.rest.length

/-- The cursor `c'` stands in the same block as `c`, `n` bytes further on at least. -/
structure Advances (n : Nat) (c c' : Cursor) : Prop where
  base : c'.base = c.base
  limit : c'.limit = c.limit
  forward : c.pos + n ≤ c'.pos

variable {m n : Nat} {c c' c'' : Cursor}

theorem Advances.refl (c : Cursor) : Advances 0 c c :=
  ⟨rfl, rfl, Nat.le_refl _⟩

theorem Advances.trans (h : Advances m c c') (h' : Advances n c' c'') : Advances (m + n) c c'' := by
  have := h.forward
  have := h'.forward
  exact ⟨h'.base.trans h.base, h'.limit.trans h.limit, by omega⟩

theorem Advances.mono (h : Advances n c c') (hle : m ≤ n) : Advances m c c' := by
  have := h.forward
  exact ⟨h.base, h.limit, by omega⟩

/-- Moving on takes bytes from those that are left. -/
theorem Advances.length_rest (h : Advances n c c') : c'.rest.length + n ≤ c.rest.length := by
  have hlimit := h.limit
  have := h.forward
  unfold Cursor.limit at hlimit
  omega

/-- Bytes that are taken off the front leave the rest behind them. -/
theorem advances_of_rest {taken : Bytes} (hrest : c.rest = taken ++ c'.rest) (hpos : c'.pos = c.pos + taken.length)
    (hbase : c'.base = c.base) : Advances taken.length c c' := by
  refine ⟨hbase, ?_, Nat.le_of_eq hpos.symm⟩
  rw [limit, limit, hrest, hpos, List.length_append, Nat.add_assoc]

theorem take_advances {bs : Bytes} (h : c.take n = .ok (bs, c')) : Advances n c c' := by
  obtain ⟨hrest, hlen, hpos, hbase⟩ := take_rest h
  subst hlen
  exact advances_of_rest hrest hpos hbase

theorem word_advances {w : UInt32} (h : c.word = .ok (w, c')) : Advances 4 c c' := by
  obtain ⟨hrest, hpos, hbase⟩ := word_rest h
  have hadv := advances_of_rest hrest (by rw [BigEndian.length_word32]; exact hpos) hbase
  rwa [BigEndian.length_word32] at hadv

theorem realign_advances {boundary : Nat} (h : c.realign boundary = .ok c') : Advances 0 c c' := by
  obtain ⟨skipped, hrest, -, hpos, hbase⟩ := realign_rest h
  exact (advances_of_rest hrest hpos hbase).mono (Nat.zero_le _)

/-- Going on behind the next NUL. -/
theorem untilNul_advances {front rest : Bytes} (h : c.rest.untilNul? = some (front, rest)) :
    Advances (front.length + 1) c { c with pos := c.pos + front.length + 1, rest } := by
  obtain ⟨hrest, -⟩ := Bytes.untilNul?_eq_some_iff.1 h
  refine ⟨rfl, ?_, Nat.le_refl _⟩
  rw [limit, limit, hrest, List.length_append, List.length_cons]
  dsimp only
  omega

theorem text_advances {bs : Bytes} (h : c.text = .ok (bs, c')) : Advances (bs.length + 1) c c' := by
  unfold text at h
  split at h
  · rename_i front rest hu
    obtain ⟨d, hr, hd⟩ := map_eq_ok_iff.1 h
    obtain ⟨rfl, rfl⟩ := Prod.mk.inj hd
    exact (untilNul_advances hu).trans (realign_advances hr)
  · cases h

theorem data_advances {bs : Bytes} (h : c.data n = .ok (bs, c')) : Advances n c c' := by
  obtain ⟨⟨front, next⟩, ht, h⟩ := bind_eq_ok_iff.1 h
  obtain ⟨d, hr, h⟩ := bind_eq_ok_iff.1 h
  obtain ⟨rfl, rfl⟩ := Prod.mk.inj (Except.ok.inj h)
  exact (take_advances ht).trans (realign_advances hr)

end Cursor

open Cursor (Advances)

/-! ## The reservation map -/

/-- The cursor behind an entry of the reservation map that does not end it. -/
def EntryLeads (c c' : Cursor) : Prop :=
  ∃ entry, c.take Reservation.entrySize = .ok (entry, c') ∧ (Reservation.ofBytes entry).size ≠ 0

theorem Steps.entries_advance {n : Nat} {c c' : Cursor} (h : Steps EntryLeads n c c') : Advances (16 * n) c c' := by
  induction h with
  | zero c => exact .refl c
  | succ step _ ih =>
    obtain ⟨_, htake, -⟩ := step
    exact ((Cursor.take_advances htake).trans ih).mono (by unfold Reservation.entrySize; omega)

/-- The map is read entry by entry, up to one of size zero or to a place where there is none any more. -/
theorem readReservations_ends (c : Cursor) :
    ∃ n c', Steps EntryLeads n c c' ∧
      ((∃ e, c'.take Reservation.entrySize = .error e ∧ readReservations c = .error e) ∨
        ∃ last next rs, c'.take Reservation.entrySize = .ok (last, next) ∧ (Reservation.ofBytes last).size = 0 ∧
          readReservations c = .ok rs ∧ rs.length = n) := by
  induction h : c.rest.length using Nat.strongRecOn generalizing c with
  | ind k ih =>
    subst h
    rw [readReservations_eq]
    cases ht : c.take Reservation.entrySize with
    | error e => exact ⟨0, c, .zero c, .inl ⟨e, ht, rfl⟩⟩
    | ok p =>
      obtain ⟨entry, next⟩ := p
      rw [ok_bind]
      by_cases hsize : (Reservation.ofBytes entry).size = 0
      · exact ⟨0, c, .zero c, .inr ⟨entry, next, [], ht, hsize, if_pos hsize, rfl⟩⟩
      · have hshort := (Cursor.take_advances ht).length_rest
        obtain ⟨n, c', hsteps, hend⟩ := ih next.rest.length (by unfold Reservation.entrySize at hshort; omega) next rfl
        refine ⟨n + 1, c', .succ ⟨entry, ht, hsize⟩ hsteps, ?_⟩
        simp only [if_neg hsize]
        rcases hend with ⟨e, hlast, hread⟩ | ⟨last, next', rs, hlast, hzero, hread, hlen⟩
        · exact .inl ⟨e, hlast, by rw [hread]; rfl⟩
        · exact .inr ⟨last, next', _ :: rs, hlast, hzero, by rw [hread]; rfl, by rw [List.length_cons, hlen]⟩

/-! ## The structure block -/

namespace BlockReader

variable {r : BlockReader} {c c' : Cursor} {s s' : Reading}

theorem skipToValue_advances {size : Nat} (h : r.skipToValue size c = .ok c') : Advances 0 c c' := by
  unfold skipToValue at h
  split at h
  · exact Cursor.realign_advances h
  · obtain rfl := Except.ok.inj h
    exact .refl c

theorem readProperty_advances {p : Property} (h : r.readProperty c = .ok (p, c')) : Advances 8 c c' := by
  obtain ⟨size, _, _, _, _, h₁, h₂, -, h₄, h₅, -⟩ := readProperty_eq_ok h
  have hvalue := (skipToValue_advances h₄).trans (Cursor.data_advances h₅)
  exact (((Cursor.word_advances h₁).trans (Cursor.word_advances h₂)).trans hvalue).mono (by omega)

theorem readOpening_advances {parent : Option String} {n : Node}
    (h : (r.readOpening parent c).result = .ok (n, c')) : Advances 1 c c' := by
  rw [result_readOpening] at h
  obtain ⟨⟨bytes, next⟩, ht, h⟩ := bind_eq_ok_iff.1 h
  split at h
  · cases h
  · obtain ⟨-, rfl⟩ := Prod.mk.inj (Except.ok.inj h)
    exact (Cursor.text_advances ht).mono (by omega)

/-- The cursor behind what was read. -/
def Progress.cursor : Progress → Cursor
  | reading s => s.cursor
  | closed _ c => c

/-- Every token takes the cursor on, by its own four bytes at least. -/
theorem step_advances {p : Progress} (h : (r.step s).result = .ok p) : Advances 4 s.cursor p.cursor := by
  rw [result_step] at h
  obtain ⟨⟨word, next⟩, hw, h⟩ := bind_eq_ok_iff.1 h
  have hnext := Cursor.word_advances hw
  split at h
  · cases h
  · rename_i t _
    unfold stepAt at h
    cases t with
    | finish => cases h
    | endNode =>
      cases ho : s.outer with
      | nil =>
        rw [ho] at h
        obtain rfl := Except.ok.inj h
        exact hnext
      | cons parent outer =>
        rw [ho] at h
        obtain rfl := Except.ok.inj h
        exact hnext
    | property =>
      obtain ⟨q, hp, rfl⟩ := map_eq_ok_iff.1 h
      exact (hnext.trans (readProperty_advances hp)).mono (by omega)
    | beginNode =>
      dsimp only at h
      split at h
      · cases h
      · obtain ⟨q, ho, rfl⟩ := map_eq_ok_iff.1 h
        exact (hnext.trans (readOpening_advances ho)).mono (by omega)

/-- One token leads from the one reading to the other. -/
def GoesOn (r : BlockReader) (s s' : Reading) : Prop :=
  (r.step s).result = .ok (.reading s')

theorem tokens_advance {n : Nat} (h : Steps r.GoesOn n s s') : Advances (4 * n) s.cursor s'.cursor := by
  induction h with
  | zero s => exact .refl s.cursor
  | succ step _ ih =>
    have hfirst : Advances 4 _ _ := step_advances step
    exact (hfirst.trans ih).mono (by omega)

/-- What a token leaves of the reading as a whole: its result, if it goes on no further. -/
def final? : Except DecodeError Progress → Option (Except DecodeError (Node × Cursor))
  | .error e => some (.error e)
  | .ok (.closed root c) => some (.ok (root, c))
  | .ok (.reading _) => none

/-- The open nodes are read token by token, up to one that closes the last of them or that is at fault. -/
theorem readOpen_ends (r : BlockReader) (s : Reading) :
    ∃ n s', Steps r.GoesOn n s s' ∧ final? (r.step s').result = some (r.readOpen s).result := by
  induction h : s.cursor.rest.length using Nat.strongRecOn generalizing s with
  | ind k ih =>
    subst h
    cases hs : (r.step s).result with
    | error e => exact ⟨0, s, .zero s, by rw [hs, readOpen_of_error hs]; rfl⟩
    | ok p =>
      cases p with
      | closed root c => exact ⟨0, s, .zero s, by rw [hs, readOpen_of_closed hs]; rfl⟩
      | reading s' =>
        obtain ⟨n, s'', hsteps, hfinal⟩ := ih _ (step_shorter hs) s' rfl
        exact ⟨n + 1, s'', .succ hs hsteps, by rw [hfinal, readOpen_of_reading hs]⟩

end BlockReader
end DeviceTree
