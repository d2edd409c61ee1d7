import DeviceTree.BootInfo
import DeviceTree.Header
import DeviceTree.Token

/-!
# The blob format as a grammar

Which runs of bytes are blobs, and what boot information each holds, without a word on how it is read. The
records of the structure block are positioned: `pos` counts from the start of the block, since alignment does.

* `IsProperty`, `IsOpening`: the bytes of a property record, and of a node from its token to the padding
  behind its stored name;
* `IsContent`: what stands between a node's opening and its end, for properties and nodes in any order;
* `IsBlob`: a header, the blocks where it says they are, and what they hold.

Blocks may overlap and names may start inside one another; nothing here forbids it.
-/

namespace DeviceTree.Format

open BigEndian (word32)

/-- The 32-bit word `w` stands at `place` in `blob`. -/
def WordAt (blob : Bytes) (place : Nat) (w : UInt32) : Prop :=
  ∃ rest, blob.drop place = word32 w ++ rest

/-! ## The structure block -/

/-- What a structure block is understood with: the version of the blob and its string block. -/
structure Context where
  version : UInt32
  strings : Bytes

/-- A text stands in the string block at `offset`, up to the next NUL. -/
def NameAt (strings : Bytes) (offset : Nat) (name : String) : Prop :=
  ∃ rest, strings.drop offset = Utf8.encode name ++ 0 :: rest ∧ 0 ∉ Utf8.encode name

/-- A node inside the one at `parent`, or inside no other, is stored as `id` and has this name and path. Before
version 16 it is stored by its path: that of the root is a slash, any other is the path around it (nothing, if
that is a slash), a slash and the name, which has no slash. From version 16 on it is stored by its name. -/
def StoredAs (version : UInt32) (parent : Option String) (id name path : String) : Prop :=
  if version < 16 then
    path = id ∧
      match parent with
      | none => id = "/" ∧ name = ""
      | some parent => '/' ∉ name.toList ∧
        ∃ dir, id = dir ++ "/" ++ name ∧ (if dir = "" then "/" else dir) = parent
  else name = id ∧ path = Path.join (parent.getD "/") id

/-- The record of a property at `pos`: its token, the value's size, the name's offset, a gap, the value, and a
fill up to a multiple of four. Before version 16, a gap leads a value of eight bytes or more to a multiple of
eight. -/
inductive IsProperty (g : Context) (pos : Nat) : Bytes → Property → Prop where
  | intro (size offset : UInt32) (name : String) (gap value fill : Bytes)
    (hname : NameAt g.strings offset.toNat name)
    (hgap : gap.length = if g.version < 16 ∧ 8 ≤ size.toNat then padding 8 (pos + 12) else 0)
    (hvalue : value.length = size.toNat)
    (hfill : fill.length = padding 4 (pos + 12 + gap.length + value.length)) :
    IsProperty g pos (word32 Token.property.word ++ word32 size ++ word32 offset ++ gap ++ value ++ fill)
      { name, value }

/-- The opening of a node at `pos`: its token, the bytes it is stored as, a NUL, and a fill up to a multiple of
four. What is not UTF-8 counts as replaced. -/
inductive IsOpening (g : Context) (parent : Option String) (pos : Nat) : Bytes → (name path : String) → Prop where
  | intro (id fill : Bytes) (name path : String) (hid : 0 ∉ id)
    (hfill : fill.length = padding 4 (pos + 4 + id.length + 1))
    (hstored : StoredAs g.version parent (Utf8.lossy id) name path) :
    IsOpening g parent pos (word32 Token.beginNode.word ++ id ++ 0 :: fill) name path

theorem IsProperty.exists_tail {g : Context} {pos : Nat} {record : Bytes} {p : Property}
    (h : IsProperty g pos record p) : ∃ tail, record = word32 Token.property.word ++ tail := by
  obtain ⟨size, offset, name, gap, value, fill⟩ := h
  exact ⟨word32 size ++ word32 offset ++ gap ++ value ++ fill, by simp⟩

theorem IsOpening.exists_tail {g : Context} {parent : Option String} {pos : Nat} {opening : Bytes}
    {name path : String} (h : IsOpening g parent pos opening name path) :
    ∃ tail, opening = word32 Token.beginNode.word ++ tail := by
  obtain ⟨id, fill⟩ := h
  exact ⟨id ++ 0 :: fill, by simp⟩

/-- The content of a node with this path at `pos`, with its properties and its children. The node is inside
`depth - 1` others, and no node may be inside more than 255. -/
inductive IsContent (g : Context) :
    (depth : Nat) → (path : String) → (pos : Nat) → Bytes → List Property → List Node → Prop where
  /-- Nothing. -/
  | nil {depth : Nat} {path : String} {pos : Nat} : IsContent g depth path pos [] [] []
  /-- A property, then more. -/
  | property {depth : Nat} {path : String} {pos : Nat} {record more : Bytes} {p : Property}
    {properties : List Property} {children : List Node} (hp : IsProperty g pos record p)
    (hmore : IsContent g depth path (pos + record.length) more properties children) :
    IsContent g depth path pos (record ++ more) (p :: properties) children
  /-- A node, from its opening through its own content to its end, then more. -/
  | child {depth : Nat} {path name inner : String} {pos : Nat} {opening content more : Bytes}
    {properties properties' : List Property} {children children' : List Node} (hdepth : depth < 256)
    (hopening : IsOpening g (some path) pos opening name inner)
    (hcontent : IsContent g (depth + 1) inner (pos + opening.length) content properties' children')
    (hmore : IsContent g depth path (pos + opening.length + content.length + 4) more properties children) :
    IsContent g depth path pos (opening ++ content ++ word32 Token.endNode.word ++ more) properties
      ({ name, path := inner, properties := properties', children := children' } :: children)

/-- A structure block: the root from its opening to its end, and the token that ends the block. Bytes after it
do not count. -/
inductive IsTree (g : Context) : Bytes → Node → Prop where
  | intro (opening content rest : Bytes) (name path : String) (properties : List Property)
    (children : List Node) (hopening : IsOpening g none 0 opening name path)
    (hcontent : IsContent g 1 path opening.length content properties children) :
    IsTree g (opening ++ content ++ word32 Token.endNode.word ++ word32 Token.finish.word ++ rest)
      { name, path, properties, children }

/-! ## The other blocks -/

/-- A reservation map: an entry of 16 bytes for each reservation, none of size zero, and one of size zero,
whatever its address. Bytes after it do not count. -/
def IsReservationMap (bs : Bytes) (reservations : List Reservation) : Prop :=
  ∃ last rest, bs = (reservations ++ [last]).flatMap Reservation.toBytes ++ rest ∧
    (∀ r ∈ reservations, r.size ≠ 0) ∧ last.size = 0

/-- The blob starts with this header, whose total size is the blob's, and which lies in the blob. Versions 2
and 3 each added a field. -/
structure IsHeader (blob : Bytes) (h : Header) : Prop where
  magic : h.magic = 0xD00DFEED ∧ WordAt blob 0 h.magic
  totalSize : h.totalSize.toNat = blob.length ∧ WordAt blob 4 h.totalSize
  structureOffset : WordAt blob 8 h.structureOffset
  stringsOffset : WordAt blob 12 h.stringsOffset
  reservationsOffset : WordAt blob 16 h.reservationsOffset
  version : WordAt blob 20 h.version
  lastCompatible : WordAt blob 24 h.lastCompatible
  bootCpuid : if 2 ≤ h.version then ∃ id, h.bootCpuid = some id ∧ WordAt blob 28 id else h.bootCpuid = none
  stringsSize :
    if 3 ≤ h.version then ∃ size, h.stringsSize = some size ∧ WordAt blob 32 size else h.stringsSize = none
  size : (if h.version ≤ 1 then 28 else if h.version = 2 then 32 else 36) ≤ blob.length

/-- Where the string block ends: behind as many bytes as the header says, or else at the end of the blob. -/
def stringsEnd (blob : Bytes) (h : Header) : Nat :=
  match h.stringsSize with
  | some size => h.stringsOffset.toNat + size.toNat
  | none => blob.length

/-- The blob holds this boot information: its header puts the blocks inside it, and the reservation map and
the structure block there are those of the boot information. -/
inductive IsBlob (blob : Bytes) (info : BootInfo) : Prop where
  | intro (h : Header) (header : IsHeader blob h)
    (hreservations : h.reservationsOffset.toNat < blob.length)
    (hstructure : h.structureOffset.toNat < blob.length)
    (hstrings : h.stringsOffset.toNat ≤ blob.length)
    (hstringsEnd : stringsEnd blob h ≤ blob.length)
    (reservations : IsReservationMap (blob.drop h.reservationsOffset.toNat) info.reservations)
    (tree : IsTree ⟨h.version, (blob.take (stringsEnd blob h)).drop h.stringsOffset.toNat⟩
      (blob.drop h.structureOffset.toNat) info.root)

/-- The bytes start with a blob that holds this boot information. Bytes after it do not count. -/
def Holds (bytes : Bytes) (info : BootInfo) : Prop :=
  ∃ blob rest, bytes = blob ++ rest ∧ IsBlob blob info

end DeviceTree.Format
