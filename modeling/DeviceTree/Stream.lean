import DeviceTree.Bytes
import DeviceTree.Decode.Error

/-!
# Streams of bytes

A stream is what a source of bytes is going to answer, one event to a read: some bytes, or one of several
failures. Once there are no events left, it has ended. `fill` reads until it has as many bytes as are wanted. It
reads again after an interruption, stops at the first other failure, and takes an answer of no bytes for the
end.

* `fill_zero`: where nothing is wanted, the stream is not read.
-/

namespace DeviceTree

/-- What a stream answers to a read. -/
inductive StreamEvent where
  /-- These bytes are there. A read takes as many as it wants and leaves the others to the next one. -/
  | data (bytes : Bytes)
  /-- The read was interrupted and is to be done again. -/
  | interrupted
  /-- The stream reports as a failure that it ended too early. -/
  | cutOff
  /-- The stream failed. -/
  | failure (failure : StreamFailure)
deriving DecidableEq, Repr

/-- The answers of a stream, in order. -/
abbrev Stream := List StreamEvent

namespace Stream

/-- How the reading of a number of bytes ended. -/
inductive Ending where
  /-- All bytes are there. -/
  | full
  /-- The stream ended before. -/
  | ended
  /-- The stream reported before that it ended too early. -/
  | cutOff
  /-- The stream failed before. -/
  | failed (failure : StreamFailure)
deriving DecidableEq, Repr

/-- The bytes taken from a stream, how the reading ended, and what is left of the stream. -/
structure Delivery where
  bytes : Bytes
  ending : Ending
  rest : Stream
deriving DecidableEq, Repr

/-- Reads `wanted` bytes, as far as the stream gives them. -/
def fill (wanted : Nat) (s : Stream) : Delivery :=
  if wanted = 0 then ⟨[], .full, s⟩
  else match s with
    | [] => ⟨[], .ended, []⟩
    | .interrupted :: s => fill wanted s
    | .cutOff :: s => ⟨[], .cutOff, s⟩
    | .failure f :: s => ⟨[], .failed f, s⟩
    | .data bs :: s =>
      if bs = [] then ⟨[], .ended, s⟩
      else if bs.length ≤ wanted then
        let d := fill (wanted - bs.length) s
        { d with bytes := bs ++ d.bytes }
      else ⟨bs.take wanted, .full, .data (bs.drop wanted) :: s⟩

theorem fill_zero (s : Stream) : fill 0 s = ⟨[], .full, s⟩ := by
  unfold fill
  rfl

end Stream

end DeviceTree
