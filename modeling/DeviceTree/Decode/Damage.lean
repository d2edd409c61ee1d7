import DeviceTree.Decode.Blob

/-!
# Damaged blobs

What becomes of a blob when it is cut short at every place, or when a word is overwritten at one place after
the other.
-/

namespace DeviceTree

/-- What came of reading a damaged blob. -/
inductive Verdict where
  /-- It was read, with so many nodes, properties and reservations. -/
  | accepted (nodes properties reservations : Nat)
  /-- It was refused. -/
  | refused (e : DecodeError)
deriving DecidableEq, Repr

/-- Tries to read a blob. -/
def Verdict.of (blob : Bytes) : Verdict :=
  match (BootInfo.ofBlob blob).result with
  | .ok info =>
    let nodes := info.root.preorder
    .accepted nodes.length (nodes.flatMap (·.properties)).length info.reservations.length
  | .error e => .refused e

namespace Damage

/-- The bytes with those from `offset` on replaced by `patch`. What would stand outside is left as it was. -/
def overwrite (bs : Bytes) (offset : Nat) (patch : Bytes) : Bytes :=
  if offset + patch.length ≤ bs.length then
    bs.take offset ++ patch ++ bs.drop (offset + patch.length)
  else bs

/-- The first `n` bytes of a blob, if wanted with a total size of `n`. -/
def cut (blob : Bytes) (fixTotal : Bool) (n : Nat) : Bytes :=
  if fixTotal then overwrite (blob.take n) HeaderField.totalSize.position (BigEndian.encode 4 n)
  else blob.take n

/-- The verdicts on a blob cut after every number of its bytes, from none to all. -/
def truncations (blob : Bytes) (fixTotal : Bool) : List Verdict :=
  (List.range (blob.length + 1)).map fun n => Verdict.of (cut blob fixTotal n)

/-- The verdicts on a blob with a word overwritten at `start` and every `step` bytes after it, as long as the
place is before `stop` and the word lies inside the blob. -/
def patches (blob : Bytes) (word : UInt32) (start stop step : Nat) : List Verdict :=
  let stop := min stop (blob.length - 3)
  (List.range' start ((stop - start + step - 1) / step) step).map fun offset =>
    Verdict.of (overwrite blob offset (BigEndian.word32 word))

end Damage

end DeviceTree
