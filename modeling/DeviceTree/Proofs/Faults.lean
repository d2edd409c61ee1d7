import DeviceTree.Proofs.Progress

/-!
# How reading fails

A record may end too early: its bytes are there up to a word, a fill or a value that the block has no room for any
more (`Format.RecordPart`), or no NUL ends its text (`Format.EndsEarly`). Each part of the reader fails so, and then
names the place where the read began that does not fit (`BlockReader.RunsOut`), or for one other reason of its own: a
record by a name that is not there (`readProperty_error`), an opening by a text that is no path (`readOpening_error`), a
token by another word in its place (`expect_error`). The reservation map fails only where it has no room for an entry
(`readReservations_error`).
-/

namespace DeviceTree

open BigEndian (word32)

/-! ## Records that end too early -/

namespace Format

/-- The gap before a value of this size, in a record at `pos`. -/
def Context.gap (g : Context) (pos : Nat) (size : UInt32) : Nat :=
  if g.version < 16 ∧ 8 ≤ size.toNat then padding 8 (pos + 12) else 0

/-- The front of a record at `pos`, and how many bytes come next in it: its token, the fill behind the text of an
opening, or what stands in a property, one after the other. The gap and the value come once the name has been found. -/
inductive RecordPart (g : Context) (pos : Nat) : (part : Bytes) → (next : Nat) → Prop where
  | token : RecordPart g pos [] 4
  | textFill {id : Bytes} (hid : 0 ∉ id) :
    RecordPart g pos (word32 Token.beginNode.word ++ id ++ [0]) (padding 4 (pos + 4 + id.length + 1))
  | size : RecordPart g pos (word32 Token.property.word) 4
  | offset {size : UInt32} : RecordPart g pos (word32 Token.property.word ++ word32 size) 4
  | gap {size offset : UInt32} {name : String} (hname : NameAt g.strings offset.toNat name) :
    RecordPart g pos (word32 Token.property.word ++ word32 size ++ word32 offset) (g.gap pos size)
  | value {size offset : UInt32} {name : String} {gap : Bytes} (hname : NameAt g.strings offset.toNat name)
    (hgap : gap.length = g.gap pos size) :
    RecordPart g pos (word32 Token.property.word ++ word32 size ++ word32 offset ++ gap) size.toNat
  | valueFill {size offset : UInt32} {name : String} {gap value : Bytes} (hname : NameAt g.strings offset.toNat name)
    (hgap : gap.length = g.gap pos size) (hvalue : value.length = size.toNat) :
    RecordPart g pos (word32 Token.property.word ++ word32 size ++ word32 offset ++ gap ++ value)
      (padding 4 (pos + 12 + gap.length + value.length))

/-- The bytes from `pos` on end too early for a record. The first `n` of them are there; what comes next does not fit. -/
inductive EndsEarly (g : Context) (pos : Nat) : (bs : Bytes) → (n : Nat) → Prop where
  /-- Fewer bytes are left than come next in the record. -/
  | part {part rest : Bytes} {next : Nat} (hpart : RecordPart g pos part next) (hrest : rest.length < next) :
    EndsEarly g pos (part ++ rest) part.length
  /-- No NUL ends the text behind the token. -/
  | text {rest : Bytes} (hnul : 0 ∉ rest) : EndsEarly g pos (word32 Token.beginNode.word ++ rest) 4

theorem EndsEarly.le_length {g : Context} {pos n : Nat} {bs : Bytes} (h : EndsEarly g pos bs n) : n ≤ bs.length := by
  cases h with
  | part hpart hrest => simp
  | text hnul => simp

end Format

open Format (EndsEarly RecordPart)

/-! ## Cursors -/

namespace Cursor

variable {base pos n : Nat} {bs : Bytes} {e : DecodeError}

theorem take_error {c : Cursor} (h : c.take n = .error e) : c.rest.length < n ∧ e = c.error .truncated := by
  unfold take at h
  split at h
  · cases h
  · rename_i hnone
    exact ⟨Bytes.split?_eq_none_iff.1 hnone, (Except.error.inj h).symm⟩

theorem word_error {c : Cursor} (h : c.word = .error e) : c.rest.length < 4 ∧ e = c.error .truncated := by
  unfold word at h
  split at h
  · cases h
  · rename_i hnone
    exact ⟨BigEndian.word32?_eq_none_iff.1 hnone, (Except.error.inj h).symm⟩

theorem realign_error {boundary : Nat} (h : (inBlock base pos bs).realign boundary = .error e) :
    bs.length < padding boundary pos ∧ e = ⟨.truncated, base + pos⟩ := by
  obtain ⟨hshort, rfl⟩ := take_error (map_eq_error_iff.1 h)
  rw [inBlock, Nat.add_sub_cancel_left] at hshort
  exact ⟨hshort, rfl⟩

/-- A text has no NUL behind it, or a fill behind that NUL which does not fit. -/
theorem text_error (h : (inBlock base pos bs).text = .error e) :
    (0 ∉ bs ∧ e = ⟨.truncated, base + pos⟩) ∨
      ∃ id rest, bs = id ++ 0 :: rest ∧ 0 ∉ id ∧ rest.length < padding 4 (pos + id.length + 1) ∧
        e = ⟨.truncated, base + (pos + id.length + 1)⟩ := by
  unfold text at h
  split at h
  · rename_i id rest hu
    obtain ⟨hbs, hnul⟩ := Bytes.untilNul?_eq_some_iff.1 hu
    have hfill : (inBlock base (pos + id.length + 1) rest).realign 4 = .error e := by
      rw [inBlock, ← Nat.add_assoc, ← Nat.add_assoc]
      exact map_eq_error_iff.1 h
    obtain ⟨hshort, he⟩ := realign_error hfill
    exact .inr ⟨id, rest, hbs, hnul, hshort, he⟩
  · rename_i hnone
    exact .inl ⟨Bytes.untilNul?_eq_none_iff.1 hnone, (Except.error.inj h).symm⟩

/-- A value does not fit, or the fill behind it. -/
theorem data_error (h : (inBlock base pos bs).data n = .error e) :
    (bs.length < n ∧ e = ⟨.truncated, base + pos⟩) ∨
      ∃ value rest, bs = value ++ rest ∧ value.length = n ∧ rest.length < padding 4 (pos + value.length) ∧
        e = ⟨.truncated, base + (pos + value.length)⟩ := by
  rcases bind_eq_error_iff.1 h with h | ⟨⟨value, next⟩, htake, h⟩
  · exact .inl (take_error h)
  obtain ⟨rest, rfl, rfl, rfl⟩ := take_eq_ok_iff.1 htake
  rcases bind_eq_error_iff.1 h with h | ⟨_, -, h⟩
  · obtain ⟨hshort, he⟩ := realign_error h
    exact .inr ⟨value, rest, rfl, rfl, hshort, he⟩
  · cases h

theorem text_rest {c c' : Cursor} {id : Bytes} (h : c.text = .ok (id, c')) :
    (∃ rest, c.rest = id ++ 0 :: rest) ∧ 0 ∉ id := by
  unfold text at h
  split at h
  · rename_i front rest hu
    obtain ⟨d, -, hd⟩ := map_eq_ok_iff.1 h
    obtain ⟨rfl, -⟩ := Prod.mk.inj hd
    obtain ⟨hrest, hnul⟩ := Bytes.untilNul?_eq_some_iff.1 hu
    exact ⟨⟨rest, hrest⟩, hnul⟩
  · cases h

end Cursor

/-! ## The reservation map -/

/-- The entries that lead on stand one behind the other. -/
theorem Steps.entries {base pos n : Nat} {bs : Bytes} {c : Cursor} (h : Steps EntryLeads n (.inBlock base pos bs) c) :
    ∃ (entries : List Reservation) (rest : Bytes), bs = entries.flatMap Reservation.toBytes ++ rest ∧ entries.length = n ∧
      (∀ r ∈ entries, r.size ≠ 0) ∧ c = .inBlock base (pos + 16 * n) rest := by
  generalize hstart : Cursor.inBlock base pos bs = start at h
  induction h generalizing pos bs with
  | zero => exact ⟨[], bs, rfl, rfl, nofun, hstart.symm⟩
  | succ hstep _ ih =>
    obtain ⟨entry, htake, hsize⟩ := hstep
    subst hstart
    obtain ⟨rest, rfl, hlen, rfl⟩ := Cursor.take_eq_ok_iff.1 htake
    obtain ⟨entries, rest, rfl, rfl, hsizes, rfl⟩ := ih rfl
    refine ⟨Reservation.ofBytes entry :: entries, rest, ?_, rfl, List.forall_mem_cons.2 ⟨hsize, hsizes⟩, ?_⟩
    · rw [List.flatMap_cons, Reservation.toBytes_ofBytes hlen, List.append_assoc]
    · rw [Nat.mul_succ, Nat.add_comm (16 * _), ← Nat.add_assoc]
      rfl

/-- Behind some entries, none of size zero, fewer bytes are left than an entry has. -/
theorem readReservations_error {base pos : Nat} {bs : Bytes} {e : DecodeError}
    (h : readReservations (.inBlock base pos bs) = .error e) :
    ∃ (entries : List Reservation) (rest : Bytes), bs = entries.flatMap Reservation.toBytes ++ rest ∧ (∀ r ∈ entries, r.size ≠ 0) ∧
      rest.length < 16 ∧ e = ⟨.truncated, base + (pos + 16 * entries.length)⟩ := by
  obtain ⟨n, c, hsteps, ⟨e', htake, hread⟩ | ⟨_, _, _, -, -, hread, -⟩⟩ := readReservations_ends (.inBlock base pos bs)
  · obtain ⟨entries, rest, rfl, rfl, hsizes, rfl⟩ := hsteps.entries
    obtain rfl := Except.error.inj (h.symm.trans hread)
    obtain ⟨hshort, rfl⟩ := Cursor.take_error htake
    exact ⟨entries, rest, rfl, hsizes, hshort, rfl⟩
  · rw [h] at hread
    cases hread

/-! ## The reader -/

namespace BlockReader

variable {r : BlockReader} {g : Format.Context} {base pos n : Nat} {bs rest : Bytes} {e : DecodeError}

/-- The error names the place where the bytes from `pos` on end too early for a record. -/
def RunsOut (g : Format.Context) (base pos : Nat) (bs : Bytes) (e : DecodeError) : Prop :=
  ∃ n, EndsEarly g pos bs n ∧ e = ⟨.truncated, base + (pos + n)⟩

theorem runsOut_of_part {part : Bytes} {next place : Nat} (hpart : RecordPart g pos part next) (hbs : bs = part ++ rest)
    (hrest : rest.length < next) (hplace : place = pos + part.length) :
    RunsOut g base pos bs ⟨.truncated, base + place⟩ := by
  subst hbs hplace
  exact ⟨part.length, .part hpart hrest, rfl⟩

theorem skipToValue_error (hr : r.Reads g) {size : UInt32}
    (h : r.skipToValue size.toNat (.inBlock base (pos + 12) bs) = .error e) :
    bs.length < g.gap pos size ∧ e = ⟨.truncated, base + (pos + 12)⟩ := by
  unfold skipToValue at h
  split at h
  · rename_i haligned
    rw [hr.1, Features.ofNumber, decide_eq_true_iff] at haligned
    rw [Format.Context.gap, if_pos haligned]
    exact Cursor.realign_error h
  · cases h

/-- A record ends too early, or there is no name where it says. -/
theorem readProperty_error (hr : r.Reads g) (h : r.readProperty (.inBlock base (pos + 4) bs) = .error e) :
    RunsOut g base pos (word32 Token.property.word ++ bs) e ∨ ∃ offset, r.strings.name offset = .error e := by
  rcases bind_eq_error_iff.1 h with h | ⟨⟨size, _⟩, hsize, h⟩
  · obtain ⟨hshort, rfl⟩ := Cursor.word_error h
    exact .inl (runsOut_of_part .size rfl hshort rfl)
  obtain ⟨bs, rfl, rfl⟩ := Cursor.word_eq_ok_iff.1 hsize
  rcases bind_eq_error_iff.1 h with h | ⟨⟨offset, _⟩, hoffset, h⟩
  · obtain ⟨hshort, rfl⟩ := Cursor.word_error h
    exact .inl (runsOut_of_part .offset (List.append_assoc ..).symm hshort rfl)
  obtain ⟨bs, rfl, rfl⟩ := Cursor.word_eq_ok_iff.1 hoffset
  rcases bind_eq_error_iff.1 h with h | ⟨name, hname, h⟩
  · exact .inr ⟨offset, h⟩
  rw [StringBlock.name_eq_ok_iff, hr.2] at hname
  rcases bind_eq_error_iff.1 h with h | ⟨_, hskip, h⟩
  · obtain ⟨hshort, rfl⟩ := skipToValue_error hr h
    exact .inl (runsOut_of_part (.gap hname) (by simp) hshort rfl)
  obtain ⟨gap, bs, rfl, hgap, rfl⟩ := (skipToValue_eq_ok_iff hr).1 hskip
  rcases bind_eq_error_iff.1 h with h | ⟨_, -, h⟩
  · rcases Cursor.data_error h with ⟨hshort, rfl⟩ | ⟨value, rest, rfl, hvalue, hshort, rfl⟩
    · exact .inl (runsOut_of_part (.value hname hgap) (by simp) hshort (by simp; omega))
    · exact .inl (runsOut_of_part (.valueFill hname hgap hvalue) (by simp) hshort (by simp; omega))
  · cases h

/-- An opening ends too early, or its text is none for a node inside `parent`. -/
theorem readOpening_error {parent : Option String}
    (h : (r.readOpening parent (.inBlock base (pos + 4) bs)).result = .error e) :
    RunsOut g base pos (word32 Token.beginNode.word ++ bs) e ∨ ∃ id, (∃ rest, bs = id ++ 0 :: rest) ∧ 0 ∉ id ∧
      r.nodeStoredAs parent (Utf8.lossy id) = none ∧
        e = ⟨.pathMismatch (Utf8.lossy id) (parent.getD ""), base + (pos + 4)⟩ := by
  rw [result_readOpening] at h
  rcases bind_eq_error_iff.1 h with h | ⟨⟨id, next⟩, ht, h⟩
  · rcases Cursor.text_error h with ⟨hnul, rfl⟩ | ⟨id, rest, rfl, hid, hshort, rfl⟩
    · exact .inl ⟨4, .text hnul, rfl⟩
    · exact .inl (runsOut_of_part (.textFill hid) (by simp) hshort (by simp; omega))
  · obtain ⟨hrest, hnul⟩ := Cursor.text_rest ht
    cases hn : r.nodeStoredAs parent (Utf8.lossy id) with
    | some n =>
      simp only [hn] at h
      cases h
    | none =>
      simp only [hn] at h
      exact .inr ⟨id, hrest, hnul, hn, (Except.error.inj h).symm⟩

/-- No word is there for the token, or another one is. -/
theorem expect_error {t : Token} {fault : UInt32 → Fault} {c : Cursor} (h : expect t fault c = .error e) :
    (c.rest.length < 4 ∧ e = c.error .truncated) ∨
      ∃ w next, c.word = .ok (w, next) ∧ w ≠ t.word ∧ e = c.error (fault w) := by
  rcases bind_eq_error_iff.1 h with h | ⟨⟨w, next⟩, hw, h⟩
  · exact .inl (Cursor.word_error h)
  · change (if w = t.word then _ else _) = _ at h
    split at h
    · cases h
    · rename_i hne
      exact .inr ⟨w, next, hw, hne, (Except.error.inj h).symm⟩

end BlockReader

end DeviceTree
