/-!
# Format versions

Four versions of the blob format can be written. They differ in the header's length and in five features; any
blob can be read, since the features follow from the number alone (`Features.ofNumber`).

* `Features.ofNumber_number`: for a version that can be written, the two ways to its features agree.
-/

namespace DeviceTree

/-- One way in which versions of the format differ. -/
inductive Feature where
  /-- A node is stored with its full path instead of its name. -/
  | fullPath
  /-- A value of eight bytes or more starts at a multiple of eight. -/
  | alignedValues
  /-- A node without a property called `name` is stored with one that holds its base name. -/
  | storedName
  /-- The header has the physical number of the boot processor. -/
  | bootCpuid
  /-- The header has the size of the string block. -/
  | stringsSize
deriving DecidableEq, Repr

/-- A set of features. -/
structure Features where
  fullPath : Bool := false
  alignedValues : Bool := false
  storedName : Bool := false
  bootCpuid : Bool := false
  stringsSize : Bool := false
deriving DecidableEq, Repr

namespace Features

/-- The features listed. -/
def ofList (fs : List Feature) : Features where
  fullPath := fs.contains .fullPath
  alignedValues := fs.contains .alignedValues
  storedName := fs.contains .storedName
  bootCpuid := fs.contains .bootCpuid
  stringsSize := fs.contains .stringsSize

/-- The features of either set. -/
def union (a b : Features) : Features where
  fullPath := a.fullPath || b.fullPath
  alignedValues := a.alignedValues || b.alignedValues
  storedName := a.storedName || b.storedName
  bootCpuid := a.bootCpuid || b.bootCpuid
  stringsSize := a.stringsSize || b.stringsSize

/-- Whether every feature of `b` is one of `a`. -/
def contains (a b : Features) : Bool :=
  a.union b == a

/-- The set as a number with one bit for each feature. -/
def bits (f : Features) : Nat :=
  f.fullPath.toNat + 2 * f.alignedValues.toNat + 4 * f.storedName.toNat + 8 * f.bootCpuid.toNat +
    16 * f.stringsSize.toNat

/-- The features of blobs that carry a version number: the header grew at 2 and 3, and from 16 on nodes are
stored by name, without a stored name property and without aligned values. -/
def ofNumber (version : UInt32) : Features where
  fullPath := version < 16
  alignedValues := version < 16
  storedName := version < 16
  bootCpuid := 2 ≤ version
  stringsSize := 3 ≤ version

end Features

/-- The versions that can be written. -/
inductive Version where
  | v1
  | v2
  | v3
  | v16
deriving DecidableEq, Repr

namespace Version

/-- Every version, oldest first. -/
def all : List Version := [.v1, .v2, .v3, .v16]

/-- The number in the header. -/
def number : Version → UInt32
  | v1 => 1
  | v2 => 2
  | v3 => 3
  | v16 => 16

/-- The version with a number, if it can be written. -/
def ofNumber? (n : UInt32) : Option Version :=
  all.find? (·.number == n)

/-- The oldest version whose readers understand this one. -/
def lastCompatible : Version → UInt32
  | v1 | v2 | v3 => 1
  | v16 => 16

/-- How many bytes the header takes. -/
def headerSize : Version → Nat
  | v1 => 28
  | v2 => 32
  | v3 | v16 => 36

/-- The features of the version. -/
def features : Version → Features
  | v1 => .ofList [.fullPath, .alignedValues, .storedName]
  | v2 => .ofList [.fullPath, .alignedValues, .storedName, .bootCpuid]
  | v3 => .ofList [.fullPath, .alignedValues, .storedName, .bootCpuid, .stringsSize]
  | v16 => .ofList [.bootCpuid, .stringsSize]

theorem number_of_ofNumber? {n : UInt32} {v : Version} (h : ofNumber? n = some v) : v.number = n := by
  have := List.find?_some h
  exact beq_iff_eq.1 this

end Version

theorem Features.ofNumber_number (v : Version) : Features.ofNumber v.number = v.features := by
  cases v <;> rfl

end DeviceTree
