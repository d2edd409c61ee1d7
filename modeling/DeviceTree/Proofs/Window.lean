import DeviceTree.Proofs.Cursor
import Mathlib.Control.Monad.Basic

/-!
# Reading by positions

A cursor has the bytes that are left of its block. A window has the whole blob, and positions in it as numbers of
64 bits: where the block begins and ends, and where the window stands. To read, it takes slices and computes
positions, and a slice can be out of range, a sum can be too large, a position can leave the block. Each of these
is a trap, which ends a run, as a fault of the blob does.

A run agrees with a reading by cursors (`Agrees`) where it ends with the same result or the same fault, and so not
in a trap. Every operation of a window that lies in a blob of less than 2^32 bytes agrees with that of its cursor.
-/

namespace DeviceTree

/-- What a run must not do. -/
inductive Trap where
  /-- A sum does not fit 64 bits. -/
  | overflow
  /-- A difference is below zero. -/
  | underflow
  /-- A slice does not lie in what it is taken from. -/
  | outOfRange
  /-- A slice of a text begins or ends inside a character. -/
  | insideCharacter
  /-- Bytes are copied to a place that has not as many. -/
  | unequalLengths
  /-- A word is read at a place that is no multiple of four bytes into the block. -/
  | unaligned
  /-- A window does not stand in its block, or the block does not lie in the blob. -/
  | outOfBlock
  /-- A loop goes on for more rounds than there are bytes. -/
  | endless
deriving DecidableEq, Repr

/-- Why a run ends without a result. -/
inductive Stop where
  | fault (e : DecodeError)
  | trap (t : Trap)
deriving DecidableEq, Repr

/-- A computation that can end in a trap. -/
abbrev Run := Except Stop

namespace Run

/-- The run of what has no traps in it. -/
def ofExcept {α : Type} (x : Except DecodeError α) : Run α :=
  x.mapError .fault

/-- The sum of two numbers. -/
def add (m n : Nat) : Run Nat :=
  if m + n < 0x10000000000000000 then .ok (m + n) else .error (.trap .overflow)

/-- The difference of two numbers. -/
def sub (m n : Nat) : Run Nat :=
  if n ≤ m then .ok (m - n) else .error (.trap .underflow)

/-- The bytes from one position up to another. -/
def slice (bs : Bytes) (start stop : Nat) : Run Bytes :=
  if start ≤ stop ∧ stop ≤ bs.length then .ok ((bs.take stop).drop start) else .error (.trap .outOfRange)

theorem ofExcept_ok {α : Type} (a : α) : ofExcept (.ok a) = .ok a := rfl

theorem add_eq_ok {m n : Nat} (h : m + n < 0x10000000000000000) : add m n = .ok (m + n) := if_pos h

theorem sub_eq_ok {m n : Nat} (h : n ≤ m) : sub m n = .ok (m - n) := if_pos h

theorem slice_eq_ok {bs : Bytes} {start stop : Nat} (h : start ≤ stop) (h' : stop ≤ bs.length) :
    slice bs start stop = .ok ((bs.take stop).drop start) := if_pos ⟨h, h'⟩

end Run

/-! ## Agreement -/

section Agrees

variable {α β γ δ : Type}

/-- The run ends as the reading does. A result of the run has `good`, and `read` gives that of the reading. -/
inductive Agrees (good : α → Prop) (read : α → β) : Run α → Except DecodeError β → Prop where
  | ok {a : α} (h : good a) : Agrees good read (.ok a) (.ok (read a))
  | fault (e : DecodeError) : Agrees good read (.error (.fault e)) (.error e)

variable {good : α → Prop} {read : α → β} {good' : γ → Prop} {read' : γ → δ} {x : Run α} {y : Except DecodeError β}

theorem Agrees.bind {f : α → Run γ} {g : β → Except DecodeError δ} (h : Agrees good read x y)
    (hf : ∀ a, good a → Agrees good' read' (f a) (g (read a))) : Agrees good' read' (x >>= f) (y >>= g) := by
  cases h with
  | ok h => exact hf _ h
  | fault e => exact .fault e

theorem Agrees.map {f : α → γ} {g : β → δ} (h : Agrees good read x y)
    (hf : ∀ a, good a → good' (f a) ∧ read' (f a) = g (read a)) :
    Agrees good' read' (x >>= fun a => .ok (f a)) (y.map g) := by
  cases h with
  | ok h =>
    obtain ⟨hgood, hread⟩ := hf _ h
    show Agrees _ _ (.ok (f _)) (.ok (g _))
    rw [← hread]
    exact .ok hgood
  | fault e => exact .fault e

/-- What is read is also known to be what the reading gives. -/
theorem Agrees.and_eq (h : Agrees good read x y) : Agrees (fun a => good a ∧ y = .ok (read a)) read x y := by
  cases h with
  | ok h => exact .ok ⟨h, rfl⟩
  | fault e => exact .fault e

theorem agrees_ofExcept (y : Except DecodeError β) : Agrees (fun b => y = .ok b) id (.ofExcept y) y := by
  cases y with
  | ok b => exact .ok rfl
  | error e => exact .fault e

theorem Agrees.eq_ofExcept {good : β → Prop} {x : Run β} (h : Agrees good id x y) : x = .ofExcept y := by
  cases h with
  | ok h => rfl
  | fault e => rfl

theorem Agrees.ne_trap (h : Agrees good read x y) (t : Trap) : x ≠ .error (.trap t) := by
  cases h with
  | ok h => nofun
  | fault e => nofun

end Agrees

/-! ## Windows -/

/-- A place in a block of a blob, by positions from the start of the blob. -/
structure Window where
  blob : Bytes
  /-- Where the block begins. -/
  base : Nat
  /-- Where the block ends. -/
  limit : Nat
  /-- Where the window stands. -/
  pos : Nat
deriving DecidableEq, Repr

namespace Window

open Run (add sub slice)

/-- The window stands in its block, and the block lies in the blob. -/
def InBlock (w : Window) : Prop :=
  w.base ≤ w.pos ∧ w.pos ≤ w.limit ∧ w.limit ≤ w.blob.length

instance (w : Window) : Decidable w.InBlock :=
  inferInstanceAs (Decidable (_ ∧ _))

/-- The window, if it stands in its block. -/
def check (w : Window) : Run Window :=
  if w.InBlock then .ok w else .error (.trap .outOfBlock)

/-- The window at the start of a block. What is wanted past the end of the blob is cut off. -/
def start (blob : Bytes) (base limit : Nat) : Run Window :=
  let limit := min limit blob.length
  check ⟨blob, min base limit, limit, min base limit⟩

/-- The window at another position. -/
def moveTo (w : Window) (pos : Nat) : Run Window :=
  check { w with pos }

/-- The bytes from the window to the end of the block. -/
def remaining (w : Window) : Run Bytes :=
  slice w.blob w.pos w.limit

/-- The error of a fault at this place. -/
def error (w : Window) (fault : Fault) : Stop :=
  .fault ⟨fault, w.pos⟩

/-- The next `n` bytes. -/
def take (n : Nat) (w : Window) : Run (Bytes × Window) := do
  match (← w.remaining).split? n with
  | none => throw (w.error .truncated)
  | some (front, _) => return (front, ← w.moveTo (← add w.pos n))

/-- The next 32-bit word. -/
def word (w : Window) : Run (UInt32 × Window) := do
  if (← sub w.pos w.base) % 4 ≠ 0 then throw (.trap .unaligned)
  let (bs, w) ← w.take 4
  return (.ofNat (BigEndian.value bs), w)

/-- Goes on to the next multiple of `boundary`, counted from the start of the block. -/
def realign (boundary : Nat) (w : Window) : Run Window := do
  let place ← sub w.pos w.base
  let pos ← add w.base (← add place (padding boundary place))
  if w.limit < pos then throw (w.error .truncated)
  w.moveTo pos

/-- The bytes before the next NUL. The window goes on behind it, to a multiple of four. -/
def text (w : Window) : Run (Bytes × Window) := do
  match (← w.remaining).untilNul? with
  | none => throw (w.error .truncated)
  | some (front, _) =>
    let w ← w.moveTo (← add w.pos (← add front.length 1))
    return (front, ← w.realign 4)

/-- The next `n` bytes. The window goes on behind them, to a multiple of four. -/
def data (n : Nat) (w : Window) : Run (Bytes × Window) := do
  let (bs, w) ← w.take n
  return (bs, ← w.realign 4)

/-- The text at an offset from the start of the block. The window stays where it is. -/
def name (w : Window) (offset : UInt32) : Run String :=
  let place := w.base + offset.toNat
  let outOfBounds := Stop.fault ⟨.stringOffsetOutOfBounds offset, min place (0xFFFFFFFFFFFFFFFF)⟩
  if place < 0x10000000000000000 ∧ place < w.limit then do
    match (← slice w.blob place w.limit).untilNul? with
    | none => throw outOfBounds
    | some (bs, _) =>
      match Utf8.decode? bs with
      | some name => return name
      | none => throw (.fault ⟨.invalidString, place⟩)
  else throw outOfBounds

/-- The cursor at the same place. -/
def cursor (w : Window) : Cursor :=
  ⟨w.base, w.pos, (w.blob.take w.limit).drop w.pos⟩

/-- The string block that the window is at the start of. -/
def stringBlock (w : Window) : StringBlock :=
  ⟨w.base, (w.blob.take w.limit).drop w.base⟩

/-- The window stands in its block, and positions in the blob are far from the largest number. -/
structure Sound (w : Window) : Prop where
  inBlock : w.InBlock
  size : w.blob.length < 0x100000000

/-- The window stands at a multiple of four bytes. -/
def Aligned (w : Window) : Prop :=
  (w.pos - w.base) % 4 = 0

/-- The window `w'` stands in the same block, at `w` or further on. -/
structure Ahead (w w' : Window) : Prop where
  blob : w'.blob = w.blob
  base : w'.base = w.base
  limit : w'.limit = w.limit
  pos : w.pos ≤ w'.pos
  sound : w'.Sound

/-- The window further on. -/
def forward (w : Window) (n : Nat) : Window :=
  { w with pos := w.pos + n }

variable {w w' w'' : Window}

theorem Ahead.trans (h : w.Ahead w') (h' : w'.Ahead w'') : w.Ahead w'' :=
  ⟨h'.blob.trans h.blob, h'.base.trans h.base, h'.limit.trans h.limit, Nat.le_trans h.pos h'.pos, h'.sound⟩

theorem Sound.length_rest (h : w.Sound) : w.cursor.rest.length = w.limit - w.pos := by
  obtain ⟨-, -, hlimit⟩ := h.inBlock
  rw [cursor, List.length_drop, List.length_take, Nat.min_eq_left hlimit]

theorem Sound.remaining_eq (h : w.Sound) : w.remaining = .ok w.cursor.rest :=
  Run.slice_eq_ok h.inBlock.2.1 h.inBlock.2.2

theorem Sound.ahead_forward (h : w.Sound) {n : Nat} (hn : n ≤ w.cursor.rest.length) : w.Ahead (w.forward n) := by
  obtain ⟨hbase, hpos, hlimit⟩ := h.inBlock
  rw [h.length_rest] at hn
  have hin : (w.forward n).InBlock := ⟨Nat.le_trans hbase (Nat.le_add_right ..), by simp only [forward]; omega, hlimit⟩
  exact ⟨rfl, rfl, rfl, Nat.le_add_right .., ⟨hin, h.size⟩⟩

theorem Sound.moveTo_eq (h : w.Sound) {n : Nat} (hn : n ≤ w.cursor.rest.length) :
    add w.pos n = .ok (w.pos + n) ∧ w.moveTo (w.pos + n) = .ok (w.forward n) := by
  obtain ⟨-, hpos, hlimit⟩ := h.inBlock
  have hahead := h.ahead_forward hn
  have hsize := h.size
  rw [h.length_rest] at hn
  exact ⟨Run.add_eq_ok (by omega), if_pos hahead.sound.inBlock⟩

theorem cursor_take (w : Window) {n : Nat} (hn : n ≤ w.cursor.rest.length) :
    w.cursor.take n = .ok (w.cursor.rest.take n, (w.forward n).cursor) := by
  unfold Cursor.take
  rw [Bytes.split?_of_le hn]
  simp only [cursor, forward, List.drop_drop]

theorem cursor_take_of_lt (w : Window) {n : Nat} (hn : w.cursor.rest.length < n) :
    w.cursor.take n = .error ⟨.truncated, w.pos⟩ := by
  unfold Cursor.take
  rw [Bytes.split?_eq_none_iff.2 hn]
  rfl

theorem take_agrees (h : w.Sound) (n : Nat) :
    Agrees (fun p => p.1.length = n ∧ p.2 = w.forward n ∧ w.Ahead p.2) (fun p => (p.1, p.2.cursor)) (w.take n)
      (w.cursor.take n) := by
  unfold take
  rw [h.remaining_eq, ok_bind]
  by_cases hn : n ≤ w.cursor.rest.length
  · obtain ⟨hadd, hmove⟩ := h.moveTo_eq hn
    rw [w.cursor_take hn, Bytes.split?_of_le hn]
    dsimp only
    rw [hadd, ok_bind, hmove]
    exact .ok (a := (w.cursor.rest.take n, w.forward n)) ⟨List.length_take_of_le hn, rfl, h.ahead_forward hn⟩
  · rw [w.cursor_take_of_lt (Nat.not_le.1 hn), Bytes.split?_eq_none_iff.2 (Nat.not_le.1 hn)]
    exact .fault _

theorem word_agrees (h : w.Sound) (haligned : w.Aligned) :
    Agrees (fun p => p.2 = w.forward 4 ∧ w.Ahead p.2 ∧ p.2.Aligned) (fun p => (p.1, p.2.cursor)) w.word
      w.cursor.word := by
  have hword : w.cursor.word = w.cursor.take 4 >>= fun p => .ok (.ofNat (BigEndian.value p.1), p.2) := by
    unfold Cursor.word Cursor.take BigEndian.word32?
    cases w.cursor.rest.split? 4 <;> rfl
  have hplace := h.inBlock.1
  unfold Aligned at haligned
  unfold word
  rw [Run.sub_eq_ok hplace, ok_bind, haligned, hword]
  refine (take_agrees h 4).bind fun p hp => ?_
  obtain ⟨-, hforward, hahead⟩ := hp
  refine .ok (a := (UInt32.ofNat (BigEndian.value p.1), p.2)) ⟨hforward, hahead, ?_⟩
  rw [hforward]
  unfold Aligned forward
  dsimp only
  omega

/-- A window that is not aligned cannot read a word. -/
example : word ⟨[0, 0, 0, 0, 1], 0, 5, 1⟩ = .error (.trap .unaligned) := by decide

theorem realign_agrees (h : w.Sound) {boundary : Nat} (hboundary : boundary = 4 ∨ boundary = 8) :
    Agrees (fun w' => w.Ahead w' ∧ w'.Aligned) cursor (w.realign boundary) (w.cursor.realign boundary) := by
  obtain ⟨hbase, hpos, hlimit⟩ := h.inBlock
  have hsize := h.size
  have hpadding : padding boundary (w.pos - w.base) < 8 := by
    have := padding_lt (show 0 < boundary by omega) (w.pos - w.base)
    omega
  have hmod : (w.pos - w.base + padding boundary (w.pos - w.base)) % 4 = 0 := by
    have := add_padding_mod (show 0 < boundary by omega) (w.pos - w.base)
    rcases hboundary with rfl | rfl <;> omega
  generalize hn : padding boundary (w.pos - w.base) = n at hpadding hmod
  have hto : w.base + (w.pos - w.base + n) = w.pos + n := by omega
  unfold realign Cursor.realign
  rw [Run.sub_eq_ok hbase, ok_bind, hn, Run.add_eq_ok (by omega), ok_bind, Run.add_eq_ok (by omega),
    ok_bind, hto]
  rw [show w.cursor.pos - w.cursor.base = w.pos - w.base from rfl, hn]
  by_cases hle : n ≤ w.cursor.rest.length
  · rw [w.cursor_take hle]
    have hmove := (h.moveTo_eq hle).2
    have hahead := h.ahead_forward hle
    rw [h.length_rest] at hle
    rw [if_neg (by omega), hmove]
    refine .ok ⟨hahead, ?_⟩
    unfold Aligned forward
    dsimp only
    omega
  · rw [w.cursor_take_of_lt (Nat.not_le.1 hle)]
    rw [h.length_rest] at hle
    rw [if_pos (by omega)]
    exact .fault _

theorem text_agrees (h : w.Sound) :
    Agrees (fun p => w.Ahead p.2 ∧ p.2.Aligned ∧ w.pos + p.1.length + 1 ≤ p.2.pos) (fun p => (p.1, p.2.cursor)) w.text
      w.cursor.text := by
  have hsize := h.size
  unfold text Cursor.text
  rw [h.remaining_eq, ok_bind]
  cases hu : w.cursor.rest.untilNul? with
  | none => exact .fault _
  | some p =>
    obtain ⟨front, rest⟩ := p
    obtain ⟨hrest, -⟩ := Bytes.untilNul?_eq_some_iff.1 hu
    have hle : front.length + 1 ≤ w.cursor.rest.length := by
      rw [hrest, List.length_append, List.length_cons]
      omega
    have hdrop : rest = w.cursor.rest.drop (front.length + 1) := by
      rw [hrest, ← List.drop_drop, List.drop_left]
      rfl
    obtain ⟨hadd, hmove⟩ := h.moveTo_eq hle
    have hahead := h.ahead_forward hle
    have hcursor : ({ w.cursor with pos := w.cursor.pos + front.length + 1, rest } : Cursor) =
        (w.forward (front.length + 1)).cursor := by
      rw [hdrop]
      simp only [cursor, forward, List.drop_drop, Nat.add_assoc]
    have hlength := h.length_rest
    have hlimit := h.inBlock.2.2
    dsimp only
    rw [Run.add_eq_ok (by omega), ok_bind, hadd, ok_bind, hmove, ok_bind, hcursor]
    refine (realign_agrees hahead.sound (.inl rfl)).map fun w' hw' => ⟨⟨hahead.trans hw'.1, hw'.2, ?_⟩, rfl⟩
    have := hw'.1.pos
    simp only [forward] at this
    omega

theorem data_agrees (h : w.Sound) (n : Nat) :
    Agrees (fun p => w.Ahead p.2 ∧ p.2.Aligned) (fun p => (p.1, p.2.cursor)) (w.data n) (w.cursor.data n) := by
  unfold data Cursor.data
  refine (take_agrees h n).bind fun p hp => ?_
  obtain ⟨-, -, hahead⟩ := hp
  refine (realign_agrees hahead.sound (.inl rfl)).bind fun w' hw' => ?_
  exact .ok (a := (p.1, w')) ⟨hahead.trans hw'.1, hw'.2⟩

theorem name_agrees (h : w.Sound) (offset : UInt32) :
    Agrees (fun _ => True) id (w.name offset) (w.stringBlock.name offset) := by
  obtain ⟨hbase, hpos, hlimit⟩ := h.inBlock
  have hsize := h.size
  have hoffset := offset.toNat_lt
  have hmin : min (w.base + offset.toNat) (0xFFFFFFFFFFFFFFFF) = w.base + offset.toNat := by omega
  unfold name StringBlock.name
  dsimp only
  rw [stringBlock, List.drop_drop, hmin]
  by_cases hplace : w.base + offset.toNat < w.limit
  · rw [if_pos ⟨by omega, hplace⟩, Run.slice_eq_ok (by omega) hlimit, ok_bind]
    cases Bytes.untilNul? ((w.blob.take w.limit).drop (w.base + offset.toNat)) with
    | none => exact .fault _
    | some p =>
      dsimp only
      cases Utf8.decode? p.1 with
      | none => exact .fault _
      | some name => exact .ok trivial
  · have hdrop : (w.blob.take w.limit).drop (w.base + offset.toNat) = [] := by
      rw [List.drop_eq_nil_iff, List.length_take]
      omega
    rw [if_neg (fun hn => hplace hn.2), hdrop]
    exact .fault _

/-- The window at the start of a block that lies in the blob. -/
theorem start_eq {blob : Bytes} {base limit : Nat} (hbase : base ≤ min limit blob.length)
    (hsize : blob.length < 0x100000000) :
    ∃ w, start blob base limit = .ok w ∧ w.Sound ∧ w.Aligned ∧ w.pos = base ∧
      w.cursor = .start base ((blob.take limit).drop base) ∧
      w.stringBlock = ⟨base, (blob.take limit).drop base⟩ := by
  have hin : InBlock ⟨blob, base, min limit blob.length, base⟩ := ⟨Nat.le_refl _, hbase, Nat.min_le_right ..⟩
  have htake : blob.take (min limit blob.length) = blob.take limit := by
    rw [← List.take_take, List.take_length]
  refine ⟨⟨blob, base, min limit blob.length, base⟩, ?_, ⟨hin, hsize⟩, ?_, rfl, ?_, ?_⟩
  · unfold start
    dsimp only
    rw [Nat.min_eq_left hbase]
    exact if_pos hin
  · unfold Aligned
    rw [Nat.sub_self]
  · rw [cursor, htake]
    rfl
  · rw [stringBlock, htake]

end Window

end DeviceTree
