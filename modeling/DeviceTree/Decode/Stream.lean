import DeviceTree.Decode.Blob
import DeviceTree.Stream

/-!
# Reading a blob from a stream

The magic number is read and checked, then the total size, then as many more bytes as the total size says. So
no byte after the blob is taken from the stream, and a stream that fails only there does no harm.
-/

namespace DeviceTree

namespace Stream

/-- Refuses a delivery that is not complete. A failure is blamed on `offset`, where the reading began; an end
on `ended`. -/
def Delivery.check (d : Delivery) (offset ended : Nat) : Except DecodeError Unit :=
  match d.ending with
  | .full => .ok ()
  | .ended => .error ⟨.truncated, ended⟩
  | .cutOff => .error ⟨.truncated, offset⟩
  | .failed f => .error ⟨.stream f, offset⟩

/-- Takes the bytes of one blob from the front of a stream, and says whether they are all there. -/
def receive (s : Stream) : Bytes × Except DecodeError Unit :=
  let first := fill 4 s
  match first.check 0 0 >>= fun _ => Header.checkMagic first.bytes with
  | .error e => (first.bytes, .error e)
  | .ok _ =>
    let second := fill 4 first.rest
    let front := first.bytes ++ second.bytes
    match second.check 4 4 >>= fun _ => Header.checkTotalSize front with
    | .error e => (front, .error e)
    | .ok size =>
      let body := fill (size.toNat - 8) second.rest
      let blob := front ++ body.bytes
      (blob, body.check 8 blob.length)

end Stream

/-- Reads boot information from the front of a stream. Also says how many bytes were taken from it. -/
def BootInfo.ofStream (s : Stream) : Outcome DecodeError BootInfo × Nat :=
  let (taken, complete) := s.receive
  (do complete; BootInfo.ofBlob taken, taken.length)

end DeviceTree
