import DeviceTree.Decode.Error
import DeviceTree.Text.Utf8

/-!
# Names in the string block

A property record refers to its name by an offset into the string block. The name runs from there to the next
NUL, so an offset may also lead into the middle of an entry.
-/

namespace DeviceTree

/-- The string block of a blob. -/
structure StringBlock where
  /-- Where the block begins. -/
  base : Nat
  bytes : Bytes
deriving DecidableEq, Repr

/-- The name at an offset. -/
def StringBlock.name (block : StringBlock) (offset : UInt32) : Except DecodeError String :=
  match Bytes.untilNul? (block.bytes.drop offset.toNat) with
  | none => .error ⟨.stringOffsetOutOfBounds offset, block.base + offset.toNat⟩
  | some (bs, _) =>
    match Utf8.decode? bs with
    | some name => .ok name
    | none => .error ⟨.invalidString, block.base + offset.toNat⟩

end DeviceTree
