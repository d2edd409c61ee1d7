import DeviceTree.Decode.Cursor
import DeviceTree.Decode.StringBlock
import DeviceTree.Proofs.Format
import DeviceTree.Proofs.Utf8

/-!
# What a cursor reads

A cursor `pos` bytes into its block (`inBlock`) reads something just when the bytes before it have its form.
Each operation has one lemma that says so, with the bytes it takes and where it leaves the cursor; a name in the
string block has one too (`StringBlock.name_eq_ok_iff`).
-/

namespace DeviceTree

open BigEndian (word32)

theorem ok_bind {ε α β : Type} (a : α) (f : α → Except ε β) : .ok a >>= f = f a := rfl

theorem bind_eq_ok_iff {ε α β : Type} {x : Except ε α} {f : α → Except ε β} {b : β} :
    x >>= f = .ok b ↔ ∃ a, x = .ok a ∧ f a = .ok b := by
  cases x <;> simp [bind, Except.bind]

theorem bind_eq_error_iff {ε α β : Type} {x : Except ε α} {f : α → Except ε β} {e : ε} :
    x >>= f = .error e ↔ x = .error e ∨ ∃ a, x = .ok a ∧ f a = .error e := by
  cases x <;> simp [bind, Except.bind]

theorem map_eq_ok_iff {ε α β : Type} {x : Except ε α} {f : α → β} {b : β} :
    x.map f = .ok b ↔ ∃ a, x = .ok a ∧ f a = b := by
  cases x <;> simp [Except.map]

theorem map_eq_error_iff {ε α β : Type} {x : Except ε α} {f : α → β} {e : ε} :
    x.map f = .error e ↔ x = .error e := by
  cases x <;> simp [Except.map]

namespace Cursor

/-- The cursor that stands `pos` bytes into a block which begins at `base`. -/
def inBlock (base pos : Nat) (rest : Bytes) : Cursor :=
  ⟨base, base + pos, rest⟩

variable {base pos : Nat} {bs : Bytes} {c : Cursor}

theorem start_eq_inBlock (base : Nat) (block : Bytes) : start base block = inBlock base 0 block := rfl

theorem take_eq_ok_iff {n : Nat} {front : Bytes} :
    (inBlock base pos bs).take n = .ok (front, c) ↔
      ∃ rest, bs = front ++ rest ∧ front.length = n ∧ c = inBlock base (pos + n) rest := by
  unfold take
  refine ⟨fun h => ?_, fun h => ?_⟩
  · split at h
    · rename_i front' rest hs
      obtain ⟨rfl, rfl⟩ := Prod.mk.inj (Except.ok.inj h)
      obtain ⟨hbs, hlen⟩ := Bytes.split?_eq_some_iff.1 hs
      exact ⟨rest, hbs, hlen, by simp only [inBlock, Nat.add_assoc]⟩
    · cases h
  · obtain ⟨rest, rfl, rfl, rfl⟩ := h
    simp only [inBlock, Bytes.split?_append, Nat.add_assoc]

theorem word_eq_ok_iff {w : UInt32} :
    (inBlock base pos bs).word = .ok (w, c) ↔
      ∃ rest, bs = word32 w ++ rest ∧ c = inBlock base (pos + 4) rest := by
  unfold word
  refine ⟨fun h => ?_, fun h => ?_⟩
  · split at h
    · rename_i w' rest hw
      obtain ⟨rfl, rfl⟩ := Prod.mk.inj (Except.ok.inj h)
      exact ⟨rest, BigEndian.word32?_eq_some_iff.1 hw, by simp only [inBlock, Nat.add_assoc]⟩
    · cases h
  · obtain ⟨rest, rfl, rfl⟩ := h
    simp only [inBlock, BigEndian.word32?_append, Nat.add_assoc]

theorem realign_eq_ok_iff {boundary : Nat} :
    (inBlock base pos bs).realign boundary = .ok c ↔
      ∃ gap rest, bs = gap ++ rest ∧ gap.length = padding boundary pos ∧
        c = inBlock base (pos + gap.length) rest := by
  have hpos : (inBlock base pos bs).pos - (inBlock base pos bs).base = pos := Nat.add_sub_cancel_left base pos
  unfold realign
  rw [hpos]
  refine ⟨fun h => ?_, fun h => ?_⟩
  · obtain ⟨⟨gap, next⟩, ht, rfl⟩ := map_eq_ok_iff.1 h
    obtain ⟨rest, hbs, hlen, hc⟩ := take_eq_ok_iff.1 ht
    exact ⟨gap, rest, hbs, hlen, by rw [hlen]; exact hc⟩
  · obtain ⟨gap, rest, hbs, hlen, hc⟩ := h
    rw [take_eq_ok_iff.2 ⟨rest, hbs, hlen, rfl⟩, hc, hlen]
    rfl

theorem text_eq_ok_iff {front : Bytes} :
    (inBlock base pos bs).text = .ok (front, c) ↔
      ∃ fill rest, bs = front ++ 0 :: fill ++ rest ∧ 0 ∉ front ∧
        fill.length = padding 4 (pos + front.length + 1) ∧
        c = inBlock base (pos + front.length + 1 + fill.length) rest := by
  unfold text
  refine ⟨fun h => ?_, fun h => ?_⟩
  · split at h
    · rename_i front' rest hu
      obtain ⟨hbs, hnul⟩ := Bytes.untilNul?_eq_some_iff.1 hu
      have hc : ({ inBlock base pos bs with pos := (inBlock base pos bs).pos + front'.length + 1, rest } : Cursor) =
          inBlock base (pos + front'.length + 1) rest := by simp only [inBlock, Nat.add_assoc]
      rw [hc] at h
      obtain ⟨d, hr, hd⟩ := map_eq_ok_iff.1 h
      obtain ⟨rfl, rfl⟩ := Prod.mk.inj hd
      obtain ⟨fill, rest', rfl, hlen, hd⟩ := realign_eq_ok_iff.1 hr
      exact ⟨fill, rest', by simpa [inBlock] using hbs, hnul, hlen, hd⟩
    · cases h
  · obtain ⟨fill, rest, rfl, hnul, hlen, rfl⟩ := h
    have hu : Bytes.untilNul? (front ++ 0 :: fill ++ rest) = some (front, fill ++ rest) := by
      rw [List.append_assoc]
      exact Bytes.untilNul?_append hnul (fill ++ rest)
    have hr : (inBlock base (pos + front.length + 1) (fill ++ rest)).realign 4 =
        .ok (inBlock base (pos + front.length + 1 + fill.length) rest) :=
      realign_eq_ok_iff.2 ⟨fill, rest, rfl, hlen, rfl⟩
    simp only [inBlock] at hu hr ⊢
    simp only [hu, Nat.add_assoc] at hr ⊢
    rw [hr]
    rfl

theorem data_eq_ok_iff {n : Nat} {front : Bytes} :
    (inBlock base pos bs).data n = .ok (front, c) ↔
      ∃ fill rest, bs = front ++ fill ++ rest ∧ front.length = n ∧
        fill.length = padding 4 (pos + front.length) ∧
        c = inBlock base (pos + front.length + fill.length) rest := by
  unfold data
  refine ⟨fun h => ?_, fun h => ?_⟩
  · obtain ⟨⟨front', next⟩, ht, h⟩ := bind_eq_ok_iff.1 h
    obtain ⟨rest, rfl, rfl, rfl⟩ := take_eq_ok_iff.1 ht
    obtain ⟨d, hr, h⟩ := bind_eq_ok_iff.1 h
    obtain ⟨rfl, rfl⟩ := Prod.mk.inj (Except.ok.inj h)
    obtain ⟨fill, rest', rfl, hlen, hd⟩ := realign_eq_ok_iff.1 hr
    exact ⟨fill, rest', by simp, rfl, hlen, hd⟩
  · obtain ⟨fill, rest, rfl, rfl, hlen, rfl⟩ := h
    rw [List.append_assoc, take_eq_ok_iff.2 ⟨fill ++ rest, rfl, rfl, rfl⟩]
    show (do let c ← (inBlock base (pos + front.length) (fill ++ rest)).realign 4; return (front, c)) = _
    rw [realign_eq_ok_iff.2 ⟨fill, rest, rfl, hlen, rfl⟩]
    rfl

end Cursor

theorem StringBlock.name_eq_ok_iff {block : StringBlock} {offset : UInt32} {name : String} :
    block.name offset = .ok name ↔ Format.NameAt block.bytes offset.toNat name := by
  unfold StringBlock.name Format.NameAt
  refine ⟨fun h => ?_, fun h => ?_⟩
  · split at h
    · cases h
    · rename_i bs rest hu
      obtain ⟨hbs, hnul⟩ := Bytes.untilNul?_eq_some_iff.1 hu
      split at h
      · rename_i name' hd
        obtain rfl := Except.ok.inj h
        obtain rfl := Utf8.decode?_eq_some_iff.1 hd
        exact ⟨rest, hbs, hnul⟩
      · cases h
  · obtain ⟨rest, hbs, hnul⟩ := h
    simp only [hbs, Bytes.untilNul?_append hnul, Utf8.decode?_eq_some_iff.2 rfl]

end DeviceTree
