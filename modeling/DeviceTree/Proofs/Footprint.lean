import DeviceTree.Proofs.DecodedPaths
import DeviceTree.Proofs.Progress

/-!
# What a tree takes of its blob

No blob comes to more than its size allows. A node takes twelve bytes of the structure block at least, for its two
tokens and the text it is stored as, and a property takes twelve and its value (`leastContent`). So what a content of
the grammar comes to is paid for by its own bytes, by induction on the content (`IsContent.paid`): its properties and
nodes stand one after the other, and each of them ends at a multiple of four.

* `decoding_is_paid_for`: reading moves on at every piece that it takes, so it comes to an end, and what it gives is
  paid for by the blocks it was read from.
-/

namespace DeviceTree

open Cursor (Advances)

/-! ## What there is in a content -/

/-- How many bytes properties and nodes take at least, with all that is in the nodes. -/
def leastContent (properties : List Property) (children : List Node) : Nat :=
  let nodes := children.flatMap Node.preorder
  let all := properties ++ nodes.flatMap (·.properties)
  12 * nodes.length + 12 * all.length + (all.flatMap (·.value)).length

theorem leastContent_property (p : Property) (properties : List Property) (children : List Node) :
    leastContent (p :: properties) children = 12 + p.value.length + leastContent properties children := by
  simp only [leastContent, List.cons_append, List.length_cons, List.flatMap_cons, List.length_append]
  omega

theorem leastContent_child (properties : List Property) (c : Node) (children : List Node) :
    leastContent properties (c :: children) =
      12 + leastContent c.properties c.children + leastContent properties children := by
  simp only [leastContent, List.flatMap_cons, List.flatMap_append, Node.preorder_eq c, List.length_append,
    List.length_cons]
  omega

namespace Format

variable {g : Context} {pos : Nat}

/-- A property record pays for itself and ends at a multiple of four. -/
theorem IsProperty.paid {record : Bytes} {p : Property} (h : IsProperty g pos record p) :
    (pos + record.length) % 4 = 0 ∧ 12 + p.value.length ≤ record.length := by
  obtain ⟨size, offset, name, gap, value, fill, -, -, -, hfill⟩ := h
  have hend := add_padding_mod (by decide : 0 < 4) (pos + 12 + gap.length + value.length)
  rw [← hfill] at hend
  simp only [List.length_append, BigEndian.length_word32]
  omega

/-- An opening that starts at a multiple of four takes a second word for its text, since a NUL ends the text. -/
theorem IsOpening.paid {parent : Option String} {opening : Bytes} {name path : String}
    (h : IsOpening g parent pos opening name path) (hpos : pos % 4 = 0) :
    (pos + opening.length) % 4 = 0 ∧ 8 ≤ opening.length := by
  obtain ⟨id, fill, _, _, -, hfill, -⟩ := h
  have hend := add_padding_mod (by decide : 0 < 4) (pos + 4 + id.length + 1)
  rw [← hfill] at hend
  simp only [List.length_append, List.length_cons, BigEndian.length_word32]
  omega

/-- A content pays for what is in it. -/
theorem IsContent.paid {depth : Nat} {path : String} {content : Bytes} {properties : List Property}
    {children : List Node} (h : IsContent g depth path pos content properties children) (hpos : pos % 4 = 0) :
    (pos + content.length) % 4 = 0 ∧ leastContent properties children ≤ content.length := by
  induction h with
  | nil => exact ⟨hpos, Nat.le_refl _⟩
  | property hp _ ih =>
    obtain ⟨hend, hrecord⟩ := hp.paid
    obtain ⟨hmore, hpaid⟩ := ih hend
    rw [leastContent_property, List.length_append]
    omega
  | child _ hopening _ _ ihcontent ihmore =>
    obtain ⟨hend, hfirst⟩ := hopening.paid hpos
    obtain ⟨hend', hpaid⟩ := ihcontent hend
    obtain ⟨hmore, hpaid'⟩ := ihmore (by omega)
    rw [leastContent_child]
    simp only [List.length_append, BigEndian.length_word32]
    omega

/-- A structure block pays for its tree and for the token that ends it. -/
theorem IsTree.paid {bs : Bytes} {root : Node} (h : IsTree g bs root) : leastContent [] [root] + 4 ≤ bs.length := by
  obtain ⟨opening, content, rest, name, path, properties, children, hopening, hcontent⟩ := h
  obtain ⟨hend, hfirst⟩ := hopening.paid rfl
  rw [Nat.zero_add] at hend
  obtain ⟨-, hpaid⟩ := hcontent.paid hend
  have hnone : leastContent [] [] = 0 := rfl
  rw [leastContent_child, hnone]
  simp only [List.length_append, BigEndian.length_word32]
  omega

/-- A reservation map pays for its entries and for the one that ends it. -/
theorem IsReservationMap.paid {bs : Bytes} {reservations : List Reservation} (h : IsReservationMap bs reservations) :
    16 * (reservations.length + 1) ≤ bs.length := by
  obtain ⟨last, rest, rfl, -⟩ := h
  rw [List.length_append, Reservation.length_flatMap_toBytes, List.length_append, List.length_singleton,
    Reservation.entrySize]
  omega

end Format

/-! ## Blobs -/

namespace BlockReader

variable {r : BlockReader}

/-- A node that is read from behind its opening token takes bytes for its text and for the token that closes it. -/
theorem readNode_advances {parent : Option String} {outer : List Node} {n root : Node} {c next c' : Cursor}
    (hopening : (r.readOpening parent c).result = .ok (n, next))
    (hread : (r.readOpen ⟨n, outer, next⟩).result = .ok (root, c')) : Advances 5 c c' := by
  obtain ⟨k, s, hsteps, hfinal⟩ := r.readOpen_ends ⟨n, outer, next⟩
  rw [hread] at hfinal
  cases hs : (r.step s).result with
  | error e =>
    rw [hs] at hfinal
    cases hfinal
  | ok p =>
    rw [hs] at hfinal
    cases p with
    | reading s' => cases hfinal
    | closed root' c'' =>
      obtain ⟨rfl, rfl⟩ := Prod.mk.inj (Except.ok.inj (Option.some.inj hfinal))
      have hlast : Advances 4 s.cursor c'' := step_advances hs
      exact (((readOpening_advances hopening).trans (tokens_advance hsteps)).trans hlast).mono (by omega)

end BlockReader

namespace BootInfo

/-- The blocks of the blob at the front of these bytes are long enough for this boot information: `12 * N + 12 * P + L`
bytes and a token for `N` nodes with `P` properties and `L` bytes of values, and 16 bytes for each reservation and for
the end of their map. -/
def PaidFor (bytes : Bytes) (info : BootInfo) : Prop :=
  let nodes := info.root.preorder
  let properties := nodes.flatMap (·.properties)
  ∃ totalSize structureOffset reservationsOffset,
    Header.fieldAt bytes .totalSize = .ok totalSize ∧
      Header.fieldAt bytes .structureOffset = .ok structureOffset ∧
      Header.fieldAt bytes .reservationsOffset = .ok reservationsOffset ∧
      structureOffset.toNat + (12 * nodes.length + 12 * properties.length +
        (properties.flatMap (·.value)).length + 4) ≤ totalSize.toNat ∧
      reservationsOffset.toNat + 16 * (info.reservations.length + 1) ≤ totalSize.toNat

theorem paidFor_of_ofBlob {bytes : Bytes} {info : BootInfo} (h : (ofBlob bytes).result = .ok info) :
    info.PaidFor bytes := by
  obtain ⟨blob, rest, rfl, header, hheader, hreservations, hstructure, -, -, hmap, htree⟩ := ofBlob_eq_ok_iff.1 h
  have hfield {field : HeaderField} {w : UInt32} (hw : Format.WordAt blob field.position w) :
      Header.fieldAt (blob ++ rest) field = .ok w :=
    Header.fieldAt_eq_ok_iff.2 (hw.append rest)
  refine ⟨header.totalSize, header.structureOffset, header.reservationsOffset, hfield hheader.totalSize.2,
    hfield hheader.structureOffset, hfield hheader.reservationsOffset, ?_, ?_⟩
  · have hpaid := htree.paid
    simp only [leastContent, List.flatMap_singleton, List.nil_append, List.length_drop] at hpaid
    rw [hheader.totalSize.1]
    omega
  · have hpaid := hmap.paid
    rw [List.length_drop] at hpaid
    rw [hheader.totalSize.1]
    omega

/-- Every entry, every token and every node that is read takes the cursor on inside its block, so that both loops of
a reading end after a number of rounds that the bytes bound. What is read of a blob is paid for by its blocks and has
no more than 256 levels. -/
theorem decoding_is_paid_for :
    (∀ (c next : Cursor) (entry : Bytes), c.take Reservation.entrySize = .ok (entry, next) → Advances 16 c next) ∧
    (∀ (r : BlockReader) (s : BlockReader.Reading) (p : BlockReader.Progress),
      (r.step s).result = .ok p → Advances 4 s.cursor p.cursor) ∧
    (∀ (r : BlockReader) (parent : Option String) (outer : List Node) (n root : Node) (c next c' : Cursor),
      (r.readOpening parent c).result = .ok (n, next) → (r.readOpen ⟨n, outer, next⟩).result = .ok (root, c') →
        Advances 5 c c') ∧
    (∀ c : Cursor, ∃ rounds last, 16 * rounds ≤ c.rest.length ∧ Steps EntryLeads rounds c last ∧
      ((∃ e, last.take Reservation.entrySize = .error e ∧ readReservations c = .error e) ∨
        ∃ entry next rs, last.take Reservation.entrySize = .ok (entry, next) ∧ (Reservation.ofBytes entry).size = 0 ∧
          readReservations c = .ok rs ∧ rs.length = rounds)) ∧
    (∀ (r : BlockReader) (s : BlockReader.Reading), ∃ rounds last, 4 * rounds ≤ s.cursor.rest.length ∧
      Steps r.GoesOn rounds s last ∧ BlockReader.final? (r.step last).result = some (r.readOpen s).result) ∧
    ∀ (bytes : Bytes) (info : BootInfo), (ofBlob bytes).result = .ok info →
      info.PaidFor bytes ∧ info.root.height ≤ 256 := by
  refine ⟨fun _ _ _ => Cursor.take_advances, fun _ _ _ => BlockReader.step_advances,
    fun _ _ _ _ _ _ _ _ => BlockReader.readNode_advances, fun c => ?_, fun r s => ?_, fun bytes info h => ?_⟩
  · obtain ⟨rounds, last, hsteps, hend⟩ := readReservations_ends c
    have := hsteps.entries_advance.length_rest
    exact ⟨rounds, last, by omega, hsteps, hend⟩
  · obtain ⟨rounds, last, hsteps, hfinal⟩ := r.readOpen_ends s
    have := (BlockReader.tokens_advance hsteps).length_rest
    exact ⟨rounds, last, by omega, hsteps, hfinal⟩
  · obtain ⟨_, _, _, _, _, _, _, _, _, _, htree⟩ := ofBlob_eq_ok_iff.1 h
    exact ⟨paidFor_of_ofBlob h, htree.held.2⟩

/-- Two nodes are paid for to the last byte of a blob with a structure block of 28 bytes. -/
theorem decoding_is_paid_for_twoNodes :
    ∃ info, (ofBlob (blobWithChild "/ab")).result = .ok info ∧ info.PaidFor (blobWithChild "/ab") ∧
      48 + (12 * info.root.preorder.length + 4) = (blobWithChild "/ab").length := by
  let info : BootInfo := { root := { name := "", path := "/", children := [{ name := "ab", path := "/ab" }] } }
  have hread : (ofBlob (blobWithChild "/ab")).result = .ok info := by decide +kernel
  exact ⟨info, hread, (decoding_is_paid_for.2.2.2.2.2 _ _ hread).1, by decide +kernel⟩

end BootInfo

end DeviceTree
