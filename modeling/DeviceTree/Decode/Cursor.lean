import DeviceTree.Bytes.BigEndian
import DeviceTree.Decode.Error

/-!
# Reading a block from front to back

A cursor stands in a block of a blob. It knows where the block begins and where it stands, both counted from
the start of the blob, and the bytes from there to the block's end. Reading gives what was read and the cursor
after it, or says at which place the block was too short.

* `word_shorter`, `text_shorter`, `data_shorter`: reading leaves fewer bytes, or for a value no more.
-/

namespace DeviceTree

/-- A place in a block of a blob. -/
structure Cursor where
  /-- Where the block begins. -/
  base : Nat
  /-- Where the cursor stands. -/
  pos : Nat
  /-- The bytes from there to the end of the block. -/
  rest : Bytes
deriving DecidableEq, Repr

namespace Cursor

/-- The cursor at the start of a block. -/
def start (base : Nat) (block : Bytes) : Cursor :=
  ⟨base, base, block⟩

/-- The error of a fault at this place. -/
def error (c : Cursor) (fault : Fault) : DecodeError :=
  ⟨fault, c.pos⟩

/-- The next `n` bytes. -/
def take (n : Nat) (c : Cursor) : Except DecodeError (Bytes × Cursor) :=
  match c.rest.split? n with
  | some (front, rest) => .ok (front, { c with pos := c.pos + n, rest })
  | none => .error (c.error .truncated)

/-- The next 32-bit word. -/
def word (c : Cursor) : Except DecodeError (UInt32 × Cursor) :=
  match BigEndian.word32? c.rest with
  | some (w, rest) => .ok (w, { c with pos := c.pos + 4, rest })
  | none => .error (c.error .truncated)

/-- Goes on to the next multiple of `boundary`, counted from the start of the block. -/
def realign (boundary : Nat) (c : Cursor) : Except DecodeError Cursor :=
  (c.take (padding boundary (c.pos - c.base))).map (·.2)

/-- The bytes before the next NUL. The cursor goes on behind it, to a multiple of four. -/
def text (c : Cursor) : Except DecodeError (Bytes × Cursor) :=
  match c.rest.untilNul? with
  | some (front, rest) =>
    (realign 4 { c with pos := c.pos + front.length + 1, rest }).map fun c => (front, c)
  | none => .error (c.error .truncated)

/-- The next `n` bytes. The cursor goes on behind them, to a multiple of four. -/
def data (n : Nat) (c : Cursor) : Except DecodeError (Bytes × Cursor) := do
  let (bs, c) ← c.take n
  let c ← c.realign 4
  return (bs, c)

theorem take_rest {n : Nat} {c c' : Cursor} {bs : Bytes} (h : c.take n = .ok (bs, c')) :
    c.rest = bs ++ c'.rest ∧ bs.length = n ∧ c'.pos = c.pos + n ∧ c'.base = c.base := by
  unfold take at h
  split at h
  · rename_i front rest hs
    obtain ⟨rfl, rfl⟩ := Prod.mk.inj (Except.ok.inj h)
    exact ⟨(Bytes.split?_eq_some_iff.1 hs).1, (Bytes.split?_eq_some_iff.1 hs).2, rfl, rfl⟩
  · cases h

theorem word_rest {c c' : Cursor} {w : UInt32} (h : c.word = .ok (w, c')) :
    c.rest = BigEndian.word32 w ++ c'.rest ∧ c'.pos = c.pos + 4 ∧ c'.base = c.base := by
  unfold word at h
  split at h
  · rename_i w' rest hw
    obtain ⟨rfl, rfl⟩ := Prod.mk.inj (Except.ok.inj h)
    exact ⟨BigEndian.word32?_eq_some_iff.1 hw, rfl, rfl⟩
  · cases h

theorem realign_rest {boundary : Nat} {c c' : Cursor} (h : c.realign boundary = .ok c') :
    ∃ skipped : Bytes, c.rest = skipped ++ c'.rest ∧ skipped.length = padding boundary (c.pos - c.base) ∧
      c'.pos = c.pos + skipped.length ∧ c'.base = c.base := by
  unfold realign at h
  cases ht : c.take (padding boundary (c.pos - c.base)) with
  | error e => rw [ht] at h; cases h
  | ok p =>
    obtain ⟨bs, d⟩ := p
    rw [ht] at h
    obtain rfl := Except.ok.inj h
    obtain ⟨h₁, h₂, h₃, h₄⟩ := take_rest ht
    exact ⟨bs, h₁, h₂, by rw [h₃, h₂], h₄⟩

theorem word_shorter {c c' : Cursor} {w : UInt32} (h : c.word = .ok (w, c')) :
    c'.rest.length + 4 = c.rest.length := by
  rw [(word_rest h).1, List.length_append, BigEndian.length_word32, Nat.add_comm]

theorem realign_shorter {boundary : Nat} {c c' : Cursor} (h : c.realign boundary = .ok c') :
    c'.rest.length ≤ c.rest.length := by
  obtain ⟨skipped, hr, -⟩ := realign_rest h
  simp [hr]

theorem text_shorter {c c' : Cursor} {bs : Bytes} (h : c.text = .ok (bs, c')) :
    c'.rest.length < c.rest.length := by
  unfold text at h
  split at h
  · rename_i front rest hu
    obtain ⟨hrest, -⟩ := Bytes.untilNul?_eq_some_iff.1 hu
    cases hr : realign 4 { c with pos := c.pos + front.length + 1, rest } with
    | error e => rw [hr] at h; cases h
    | ok d =>
      rw [hr] at h
      obtain ⟨rfl, rfl⟩ := Prod.mk.inj (Except.ok.inj h)
      have := realign_shorter hr
      rw [hrest]
      simp only [List.length_append, List.length_cons] at this ⊢
      omega
  · cases h

theorem data_shorter {n : Nat} {c c' : Cursor} {bs : Bytes} (h : c.data n = .ok (bs, c')) :
    c'.rest.length ≤ c.rest.length := by
  unfold data at h
  cases ht : c.take n with
  | error e => rw [ht] at h; cases h
  | ok p =>
    obtain ⟨front, next⟩ := p
    rw [ht] at h
    cases hr : next.realign 4 with
    | error e => simp [bind, Except.bind, hr] at h
    | ok d =>
      simp only [bind, Except.bind, hr, pure, Except.pure, Except.ok.injEq, Prod.mk.injEq] at h
      have := realign_shorter hr
      rw [(take_rest ht).1, List.length_append, ← h.2]
      omega

end Cursor

end DeviceTree
