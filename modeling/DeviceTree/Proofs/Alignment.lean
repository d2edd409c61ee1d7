import DeviceTree.Proofs.BlobLayout
import Mathlib.Data.List.Infix

/-!
# Where the fields of the structure block stand

A structure block is a run of pieces: the opening of a node, the record of a property, the end of a node, and the end of
the block. Each begins with its token. A placement puts a piece at a position and says how many zeros are in it, before
its value and at its end. How many those are depends on all that was written before, but each piece that begins at a
multiple of four also ends at one (`EndsAligned`), so runs of pieces that are well placed from there can be put together
(`Lays.append`), node by node. The block itself begins at a multiple of eight, so its pieces are placed as well in a
whole blob (`Placement.Aligned.shift`).

* `structure_aligned`: the placements of all pieces of a block, and where they are in a blob.
-/

namespace DeviceTree

open BigEndian (word32)

namespace Structure

variable {f : Features} {offset : String → Nat}

/-- A piece of the structure block, from one token up to the next. -/
inductive Piece where
  /-- The opening of a node that is stored as this text. -/
  | opening (id : String)
  /-- The record of a property whose name stands at this offset in the string block. -/
  | record (p : Property) (nameOffset : Nat)
  /-- The end of a node. -/
  | close
  /-- The end of the block. -/
  | finish
deriving DecidableEq, Repr

/-- The pieces of a node and all nodes below it. -/
def nodePieces (f : Features) (offset : String → Nat) (n : Node) : List Piece :=
  n.fold fun n below =>
    .opening (storedId f n) :: (storedProperties f n).map (fun p => .record p (offset p.name)) ++ below.flatten ++
      [.close]

theorem nodePieces_eq (n : Node) :
    nodePieces f offset n =
      .opening (storedId f n) :: (storedProperties f n).map (fun p => .record p (offset p.name)) ++
        n.children.flatMap (nodePieces f offset) ++ [.close] := by
  rw [nodePieces, Node.fold_eq, List.flatMap_def]
  rfl

/-- The pieces of a block. -/
def pieces (f : Features) (offset : String → Nat) (root : Node) : List Piece :=
  nodePieces f offset root ++ [.finish]

/-- A piece at its place in the block, with the zeros in it. -/
structure Placement where
  piece : Piece
  /-- Where its token begins, from the start of the block. -/
  start : Nat
  /-- How many zeros stand before the value. -/
  gap : Nat
  /-- How many zeros stand at its end. -/
  fill : Nat
deriving DecidableEq, Repr

namespace Placement

/-- The bytes of the piece. -/
def bytes (p : Placement) : Bytes :=
  match p.piece with
  | .opening id =>
    word32 Token.beginNode.word ++ (Utf8.encode id ++ [0]) ++ List.replicate p.fill 0
  | .record q nameOffset =>
    word32 Token.property.word ++ word32 (.ofNat q.value.length) ++ word32 (.ofNat nameOffset) ++
      List.replicate p.gap 0 ++ q.value ++ List.replicate p.fill 0
  | .close => word32 Token.endNode.word
  | .finish => word32 Token.finish.word

/-- Where the value begins, in the record of a property. It comes after three words. -/
def valueStart (p : Placement) : Nat :=
  p.start + 12 + p.gap

/-- The token begins at a multiple of four. Where long values are aligned, those of eight bytes or more begin at a
multiple of eight; every other value begins right behind the offset of its name. There are fewer than eight zeros
before a value, and fewer than four at the end of a piece. -/
structure Aligned (longValues : Prop) (p : Placement) : Prop where
  start : 4 ∣ p.start
  long : ∀ q nameOffset, p.piece = .record q nameOffset → longValues → 8 ≤ q.value.length → 8 ∣ p.valueStart
  other : ∀ q nameOffset, p.piece = .record q nameOffset → ¬(longValues ∧ 8 ≤ q.value.length) → p.gap = 0
  gap_lt : p.gap < 8
  fill_lt : p.fill < 4

/-- The piece as it is placed in a run of bytes in which the block begins at an offset. -/
def shift (offset : Nat) (p : Placement) : Placement :=
  { p with start := offset + p.start }

theorem valueStart_shift (offset : Nat) (p : Placement) : (p.shift offset).valueStart = offset + p.valueStart := by
  simp only [valueStart, shift]
  omega

/-- A block that begins at a multiple of eight keeps its pieces aligned. -/
theorem Aligned.shift {longValues : Prop} {p : Placement} (h : p.Aligned longValues) {offset : Nat}
    (hoffset : offset % 8 = 0) : (p.shift offset).Aligned longValues where
  start := Nat.dvd_add (by omega) h.start
  long q nameOffset hq haligned hlong := by
    rw [valueStart_shift]
    exact Nat.dvd_add (by omega) (h.long q nameOffset hq haligned hlong)
  other := h.other
  gap_lt := h.gap_lt
  fill_lt := h.fill_lt

/-- The bytes of the piece are where it starts, and its value is where that begins. -/
structure StandsIn (p : Placement) (bs : Bytes) : Prop where
  bytes : p.bytes <+: bs.drop p.start
  value : ∀ q nameOffset, p.piece = .record q nameOffset → q.value <+: bs.drop p.valueStart

/-- The value comes behind three words and the zeros before it. -/
theorem value_prefix_drop {p : Placement} {q : Property} {nameOffset : Nat} (h : p.piece = .record q nameOffset) :
    q.value <+: p.bytes.drop (12 + p.gap) := by
  rw [bytes, h]
  dsimp only
  have hlength : (word32 Token.property.word ++ word32 (.ofNat q.value.length) ++ word32 (.ofNat nameOffset) ++
      List.replicate p.gap (0 : UInt8)).length = 12 + p.gap := by
    simp only [List.length_append, BigEndian.length_word32, List.length_replicate]
  rw [List.append_assoc, List.drop_left' hlength]
  exact List.prefix_append ..

theorem standsIn_of_prefix {p : Placement} {bs : Bytes} (h : p.bytes <+: bs.drop p.start) : p.StandsIn bs where
  bytes := h
  value q nameOffset hq := by
    rw [valueStart, Nat.add_assoc, ← List.drop_drop]
    exact (value_prefix_drop hq).trans (List.IsPrefix.drop h _)

/-- A piece of a block stands, shifted, in what has the block behind an offset. -/
theorem StandsIn.shift {p : Placement} {block bs : Bytes} (h : p.StandsIn block) {offset : Nat}
    (hblock : block <+: bs.drop offset) : (p.shift offset).StandsIn bs := by
  refine standsIn_of_prefix ?_
  show p.bytes <+: bs.drop (offset + p.start)
  rw [← List.drop_drop]
  exact h.bytes.trans (List.IsPrefix.drop hblock _)

end Placement

/-- The placements follow one another from a position. -/
def Follow : Nat → List Placement → Prop
  | _, [] => True
  | pos, p :: ps => p.start = pos ∧ Follow (pos + p.bytes.length) ps

theorem follow_append {pos : Nat} {ps qs : List Placement} (hp : Follow pos ps)
    (hq : Follow (pos + (ps.flatMap Placement.bytes).length) qs) : Follow pos (ps ++ qs) := by
  induction ps generalizing pos with
  | nil => exact hq
  | cons p ps ih =>
    refine ⟨hp.1, ih hp.2 ?_⟩
    rwa [List.flatMap_cons, List.length_append, ← Nat.add_assoc] at hq

/-- Of placements that follow one another, each has its bytes where it starts. -/
theorem Follow.prefix_drop {pos : Nat} {ps : List Placement} (h : Follow pos ps) {p : Placement} (hp : p ∈ ps) :
    pos ≤ p.start ∧ p.bytes <+: (ps.flatMap Placement.bytes).drop (p.start - pos) := by
  induction ps generalizing pos with
  | nil => exact absurd hp List.not_mem_nil
  | cons q ps ih =>
    obtain ⟨hstart, hfollow⟩ := h
    rw [List.flatMap_cons]
    rcases List.mem_cons.1 hp with rfl | hp
    · rw [hstart, Nat.sub_self]
      exact ⟨Nat.le_refl pos, List.prefix_append ..⟩
    · obtain ⟨hle, hprefix⟩ := ih hfollow hp
      have hsplit : p.start - pos = q.bytes.length + (p.start - (pos + q.bytes.length)) := by omega
      rw [hsplit, List.drop_length_add_append]
      exact ⟨by omega, hprefix⟩

/-- From any multiple of four, the items are written as these pieces, well placed. -/
def Lays (f : Features) (items : List Item) (pieces : List Piece) : Prop :=
  ∀ pos, pos % 4 = 0 → ∃ ps : List Placement, ps.map (·.piece) = pieces ∧ Follow pos ps ∧
    bytesFrom pos items = ps.flatMap Placement.bytes ∧ ∀ p ∈ ps, p.Aligned f.alignedValues

theorem Lays.nil : Lays f [] [] := fun _ _ => ⟨[], rfl, trivial, rfl, nofun⟩

theorem Lays.append {xs ys : List Item} {ps qs : List Piece} (hx : Lays f xs ps) (hend : EndsAligned xs)
    (hy : Lays f ys qs) : Lays f (xs ++ ys) (ps ++ qs) := by
  intro pos hpos
  obtain ⟨ps, rfl, hfollow, hbytes, haligned⟩ := hx pos hpos
  obtain ⟨qs, rfl, hfollow', hbytes', haligned'⟩ := hy _ (hend pos hpos)
  refine ⟨ps ++ qs, List.map_append, follow_append hfollow ?_, ?_, ?_⟩
  · rwa [← hbytes]
  · rw [bytesFrom_append, hbytes', List.flatMap_append, hbytes]
  · exact fun p hp => (List.mem_append.1 hp).elim (haligned p) (haligned' p)

theorem Lays.flatMap {α : Type} {l : List α} {items : α → List Item} {ps : α → List Piece}
    (h : ∀ a ∈ l, Lays f (items a) (ps a)) (hend : ∀ a ∈ l, EndsAligned (items a)) :
    Lays f (l.flatMap items) (l.flatMap ps) := by
  induction l with
  | nil => exact .nil
  | cons a l ih =>
    obtain ⟨ha, hl⟩ := List.forall_mem_cons.1 h
    obtain ⟨hend, hends⟩ := List.forall_mem_cons.1 hend
    exact ha.append hend (ih hl hends)

theorem Lays.congr {xs ys : List Item} {ps : List Piece} (hy : Lays f ys ps) (h : SameBytes xs ys) :
    Lays f xs ps := fun pos hpos => by
  rw [h pos]
  exact hy pos hpos

/-- For a single piece, it is to say how many zeros are in it at every position. -/
theorem lays_singleton {items : List Item} {piece : Piece}
    (h : ∀ pos, pos % 4 = 0 → ∃ gap fill, bytesFrom pos items = Placement.bytes ⟨piece, pos, gap, fill⟩ ∧
      Placement.Aligned f.alignedValues ⟨piece, pos, gap, fill⟩) : Lays f items [piece] := by
  intro pos hpos
  obtain ⟨gap, fill, hbytes, haligned⟩ := h pos hpos
  refine ⟨[⟨piece, pos, gap, fill⟩], rfl, ⟨rfl, trivial⟩, ?_, by simpa using haligned⟩
  rw [hbytes, List.flatMap_singleton]

theorem lays_opening (n : Node) : Lays f (openingItems f n) [.opening (storedId f n)] := by
  refine lays_singleton fun pos hpos =>
    ⟨0, padding 4 (pos + 4 + (Utf8.encode (storedId f n)).length + 1), ?_, ?_⟩
  · rw [bytesFrom_openingItems]
    simp [Placement.bytes]
  · exact
      { start := Nat.dvd_of_mod_eq_zero hpos
        long := nofun
        other := nofun
        gap_lt := Nat.zero_lt_succ 7
        fill_lt := padding_lt (by decide) _ }

/-- The zeros before the value lead to a multiple of eight, if there are to be any. -/
theorem lays_record (p : Property) : Lays f (propertyItems f offset p) [.record p (offset p.name)] := by
  refine lays_singleton fun pos hpos =>
    ⟨if f.alignedValues ∧ 8 ≤ p.value.length then padding 8 (pos + 12) else 0, _, bytesFrom_propertyItems p pos, ?_⟩
  refine
    { start := Nat.dvd_of_mod_eq_zero hpos
      long := fun q nameOffset hq haligned hlong => ?_
      other := fun q nameOffset hq hother => ?_
      gap_lt := ?_
      fill_lt := padding_lt (by decide) _ }
  · obtain ⟨rfl, -⟩ := Piece.record.inj hq
    simp only [Placement.valueStart, haligned, hlong, and_self, if_true]
    exact Nat.dvd_of_mod_eq_zero (add_padding_mod (by decide) _)
  · obtain ⟨rfl, -⟩ := Piece.record.inj hq
    exact if_neg hother
  · dsimp only
    split
    · exact padding_lt (by decide) _
    · decide

/-- A token alone is a piece. -/
theorem lays_token {item : Item} {piece : Piece} (hrecord : ∀ q nameOffset, piece ≠ .record q nameOffset)
    (h : ∀ pos, bytesFrom pos [item] = Placement.bytes ⟨piece, pos, 0, 0⟩) : Lays f [item] [piece] :=
  lays_singleton fun pos hpos => ⟨0, 0, h pos,
    { start := Nat.dvd_of_mod_eq_zero hpos
      long := fun q nameOffset hq => absurd hq (hrecord q nameOffset)
      other := fun _ _ _ _ => rfl
      gap_lt := Nat.zero_lt_succ 7
      fill_lt := Nat.zero_lt_succ 3 }⟩

theorem lays_recordItems (n : Node) :
    Lays f (n.properties.flatMap (propertyItems f offset) ++ baseNameItems f offset n)
      ((storedProperties f n).flatMap fun p => [.record p (offset p.name)]) :=
  -- the record of the base name is that of a property
  Lays.congr (.flatMap (fun p _ => lays_record p) fun p _ => endsAligned_propertyItems p) (bytesFrom_records n)

theorem lays_nodeItems (n : Node) : Lays f (nodeItems f offset n) (nodePieces f offset n) := by
  induction n using Node.induction with
  | step n ih =>
    have hchildren : Lays f (n.children.flatMap (nodeItems f offset)) (n.children.flatMap (nodePieces f offset)) :=
      .flatMap ih fun c _ => endsAligned_nodeItems c
    have hchildren_end : EndsAligned (n.children.flatMap (nodeItems f offset)) :=
      .flatMap fun c _ => endsAligned_nodeItems c
    have hclose : Lays f [.endNode n.label] [.close] := lays_token nofun fun _ => rfl
    have hbody : Lays f (bodyItems f offset n) _ :=
      ((lays_recordItems n).append (endsAligned_recordItems n) hchildren).append
        ((endsAligned_recordItems n).append hchildren_end) hclose
    rw [nodeItems_eq_opening, nodePieces_eq, List.map_eq_flatMap, List.append_assoc, List.cons_append,
      ← List.append_assoc]
    exact (lays_opening n).append (endsAligned_openingItems n) hbody

theorem lays_items (root : Node) : Lays f (items f offset root) (pieces f offset root) :=
  (lays_nodeItems root).append (endsAligned_nodeItems root) (lays_token nofun fun _ => rfl)

end Structure

theorem Version.alignedValues_iff {v : Version} : v.features.alignedValues ↔ v ≠ .v16 := by
  cases v <;> decide

namespace BootInfo

open Structure

/-- The structure block is its pieces, one behind the other, and zeros between their fields. In the block and in every
blob with it, each token begins at a multiple of four; before version 16 each value of eight bytes or more begins at a
multiple of eight, and from then on each begins right behind the offset of its name. -/
theorem structure_aligned (info : BootInfo) (v : Version) :
    ∃ ps : List Placement, ps.map (·.piece) = pieces v.features (info.stringTable v).offset info.root ∧
      Follow 0 ps ∧ info.structureBlock v = ps.flatMap Placement.bytes ∧
      (∀ p ∈ ps, p.Aligned (v ≠ .v16) ∧ p.StandsIn (info.structureBlock v)) ∧
      ∀ (s : Settings) (b : Bytes), Version.ofNumber? s.version = some v → (info.toBlob s).result = .ok b →
        ∃ h, Header.parse b = .ok h ∧
          ∀ p ∈ ps, (p.shift h.structureOffset.toNat).Aligned (v ≠ .v16) ∧
            (p.shift h.structureOffset.toNat).StandsIn b := by
  have hlays : Lays v.features _ (pieces v.features (info.stringTable v).offset info.root) := lays_items info.root
  obtain ⟨ps, hpieces, hfollow, hbytes, haligned⟩ := hlays 0 rfl
  rw [Version.alignedValues_iff] at haligned
  have hblock : info.structureBlock v = ps.flatMap Placement.bytes := hbytes
  have hstands : ∀ p ∈ ps, p.StandsIn (info.structureBlock v) := fun p hp =>
    Placement.standsIn_of_prefix (hblock ▸ (hfollow.prefix_drop hp).2)
  refine ⟨ps, hpieces, hfollow, hblock, fun p hp => ⟨haligned p hp, hstands p hp⟩, fun s b hv hb => ?_⟩
  obtain ⟨v', hv', -, hfit, rfl⟩ := toBlob_eq_ok_iff.1 hb
  obtain rfl : v' = v := Option.some.inj (hv'.symm.trans hv)
  refine ⟨_, (isHeader_blobBytes s.blobCpuid hfit).parse, fun p hp => ?_⟩
  rw [(header_offsets s.blobCpuid hfit).2.1]
  refine ⟨(haligned p hp).shift (Layout.structureOffset_mod v' _), (hstands p hp).shift ?_⟩
  rw [drop_structureOffset]
  exact List.prefix_append ..

/-- A root with a value of eight bytes. -/
def longValue : BootInfo where
  root := { name := "", path := "/", properties := [⟨"reg", [1, 2, 3, 4, 5, 6, 7, 8], none⟩] }

theorem structure_aligned_longValue :
    ∃ b h, ∃ p : Placement, (longValue.toBlob { version := 3 }).result = .ok b ∧ Header.parse b = .ok h ∧
      p.piece = .record ⟨"reg", [1, 2, 3, 4, 5, 6, 7, 8], none⟩ 0 ∧
      8 ∣ (p.shift h.structureOffset.toNat).valueStart ∧
      [1, 2, 3, 4, 5, 6, 7, 8] <+: b.drop (p.shift h.structureOffset.toNat).valueStart := by
  obtain ⟨b, hb⟩ : ∃ b, (longValue.toBlob { version := 3 }).result = .ok b := ⟨_, rfl⟩
  obtain ⟨ps, hpieces, -, -, -, hblob⟩ := structure_aligned longValue .v3
  obtain ⟨h, hparse, hplaced⟩ := hblob _ b rfl hb
  have hmem : Piece.record ⟨"reg", [1, 2, 3, 4, 5, 6, 7, 8], none⟩ 0 ∈ ps.map (·.piece) := by
    rw [hpieces, pieces, nodePieces_eq]
    exact List.mem_append_left _ (.tail _ (.head _))
  obtain ⟨p, hp, hpiece⟩ := List.mem_map.1 hmem
  obtain ⟨haligned, hstands⟩ := hplaced p hp
  exact ⟨b, h, p, hb, hparse, hpiece, haligned.long _ _ hpiece (by decide) (by decide), hstands.value _ _ hpiece⟩

end BootInfo

end DeviceTree
