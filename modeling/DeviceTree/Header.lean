import DeviceTree.Bytes.BigEndian
import DeviceTree.Decode.Error
import DeviceTree.Version

/-!
# The header of a blob

A blob starts with seven 32-bit words, to which version 2 adds the number of the boot processor and version 3
the size of the string block. `Header.parse` reads them, `Header.toBytes` writes them, and `Header.summary`
lists them for a log.
-/

namespace DeviceTree

/-- The header of a blob. The last two fields are there from versions 2 and 3 on. -/
structure Header where
  magic : UInt32
  totalSize : UInt32
  structureOffset : UInt32
  stringsOffset : UInt32
  reservationsOffset : UInt32
  version : UInt32
  lastCompatible : UInt32
  bootCpuid : Option UInt32
  stringsSize : Option UInt32
deriving DecidableEq, Repr

namespace Header

/-- The word that every blob starts with. -/
def magicNumber : UInt32 := 0xD00DFEED

/-- The size of the smallest header. -/
def smallestSize : Nat := 28

/-- How many bytes the header of a blob with this version number takes. -/
def sizeFor (version : UInt32) : Nat :=
  if version < 2 then 28 else if version < 3 then 32 else 36

/-- The features of the blob. -/
def features (h : Header) : Features :=
  .ofNumber h.version

/-- The word of a field at the start of `blob`. -/
def fieldAt (blob : Bytes) (field : HeaderField) : Except DecodeError UInt32 :=
  match BigEndian.word32? (blob.drop field.position) with
  | some (word, _) => .ok word
  | none => .error ⟨.truncated, blob.length⟩

/-- Reads the magic number, which has to be the right one. -/
def checkMagic (blob : Bytes) : Except DecodeError UInt32 := do
  let magic ← fieldAt blob .magic
  if magic ≠ magicNumber then throw ⟨.invalidMagic magic, HeaderField.magic.position⟩
  return magic

/-- Reads the total size, which has to cover the smallest header. -/
def checkTotalSize (blob : Bytes) : Except DecodeError UInt32 := do
  let size ← fieldAt blob .totalSize
  if size.toNat < smallestSize then throw ⟨.blobTooSmall size, HeaderField.totalSize.position⟩
  return size

/-- The word of a field that not every header has. -/
def optionalFieldAt (blob : Bytes) (present : Prop) [Decidable present] (field : HeaderField) :
    Except DecodeError (Option UInt32) :=
  if present then (fieldAt blob field).map some else .ok none

/-- Refuses a blob of fewer bytes. -/
def requireLength (n : Nat) (blob : Bytes) : Except DecodeError Unit :=
  if blob.length < n then .error ⟨.truncated, blob.length⟩ else .ok ()

/-- Reads the header at the start of `blob`. Offsets and sizes are not checked against each other. -/
def parse (blob : Bytes) : Except DecodeError Header := do
  let magic ← checkMagic blob
  requireLength smallestSize blob
  let version ← fieldAt blob .version
  requireLength (sizeFor version) blob
  return {
    magic
    totalSize := ← fieldAt blob .totalSize
    structureOffset := ← fieldAt blob .structureOffset
    stringsOffset := ← fieldAt blob .stringsOffset
    reservationsOffset := ← fieldAt blob .reservationsOffset
    version
    lastCompatible := ← fieldAt blob .lastCompatible
    bootCpuid := ← optionalFieldAt blob (2 ≤ version) .bootCpuid
    stringsSize := ← optionalFieldAt blob (3 ≤ version) .stringsSize }

/-- The bytes of the header, as long as the fields that are there. -/
def toBytes (h : Header) : Bytes :=
  ([h.magic, h.totalSize, h.structureOffset, h.stringsOffset, h.reservationsOffset, h.version,
    h.lastCompatible] ++ h.bootCpuid.toList ++ h.stringsSize.toList).flatMap BigEndian.word32

/-- The fields one below the other, each after a tab and its name. -/
def summary (h : Header) : String :=
  let line (field : HeaderField) (tabs value : String) : String := "\t" ++ field.name ++ ":" ++ tabs ++ value
  "\n".intercalate <|
    [line .magic "\t\t\t" (Hex.prefixed h.magic.toNat),
      line .totalSize "\t\t" (toString h.totalSize.toNat),
      line .structureOffset "\t\t" (Hex.prefixed h.structureOffset.toNat),
      line .stringsOffset "\t\t" (Hex.prefixed h.stringsOffset.toNat),
      line .reservationsOffset "\t\t" (Hex.prefixed h.reservationsOffset.toNat),
      line .version "\t\t" (Hex.prefixed h.version.toNat),
      line .lastCompatible "\t" (Hex.prefixed h.lastCompatible.toNat)] ++
    (h.bootCpuid.map fun id => line .bootCpuid "\t" (Hex.prefixed id.toNat)).toList ++
    (h.stringsSize.map fun size => line .stringsSize "\t" (toString size.toNat)).toList

end Header

end DeviceTree
