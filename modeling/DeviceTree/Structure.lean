import DeviceTree.BootInfo
import DeviceTree.StringTable
import DeviceTree.Token
import DeviceTree.Version

/-!
# The structure block

A tree is flattened into a run of items (`items`): tokens, words, texts, values, and alignment. The run depends
on the features of the version and on where the property names stand in the string block. `blockBytes` is the
run as bytes; alignment counts from the start of the block.

`storedSizes` lists, in the order of the block, the name and the value's size of every property record; from it
come the string table (`stringTable`) and the checks that sizes fit.
-/

namespace DeviceTree

namespace Structure

/-- The name of the property that holds a node's base name. -/
def baseNameProperty : String := "name"

/-- A piece of the structure block. Labels have no bytes; they name places for an assembler. -/
inductive Item where
  /-- A node opens, at its label. -/
  | beginNode (label : Option String)
  /-- A node closes, before the label that marks its end. -/
  | endNode (label : Option String)
  /-- A property record starts, at its label. -/
  | property (label : Option String)
  /-- The block ends. -/
  | finish
  /-- A number of 32 bits. -/
  | word (n : Nat)
  /-- A text, followed by a NUL. -/
  | text (s : String)
  /-- Bytes as they are. -/
  | data (bs : Bytes)
  /-- Zeros up to the next multiple of a boundary. -/
  | align (boundary : Nat)
deriving DecidableEq, Repr

/-- Whether the node has to be stored with its base name as a property. -/
def storesName (f : Features) (n : Node) : Bool :=
  f.storedName && n.properties.all (·.name != baseNameProperty)

/-- The alignment before a value of the given size. -/
def valueAlignment (f : Features) (size : Nat) : List Item :=
  if f.alignedValues ∧ 8 ≤ size then [.align 8] else []

/-- The record of a property. -/
def propertyItems (f : Features) (offset : String → Nat) (p : Property) : List Item :=
  [.property p.label, .word p.value.length, .word (offset p.name)] ++
    valueAlignment f p.value.length ++ [.data p.value, .align 4]

/-- The record of the base name, for a node that has to be stored with it. -/
def baseNameItems (f : Features) (offset : String → Nat) (n : Node) : List Item :=
  let size := StringTable.entrySize n.baseName
  if storesName f n then
    [.property none, .word size, .word (offset baseNameProperty)] ++ valueAlignment f size ++
      [.text n.baseName, .align 4]
  else []

/-- What stands between a node's opening and its children. -/
def headItems (f : Features) (offset : String → Nat) (n : Node) : List Item :=
  [.beginNode n.label, .text (if f.fullPath then n.path else n.name), .align 4] ++
    n.properties.flatMap (propertyItems f offset) ++ baseNameItems f offset n

/-- The items of a node and all nodes below it. -/
def nodeItems (f : Features) (offset : String → Nat) (n : Node) : List Item :=
  n.fold fun n below => headItems f offset n ++ below.flatten ++ [.endNode n.label]

theorem nodeItems_eq (f : Features) (offset : String → Nat) (n : Node) :
    nodeItems f offset n =
      headItems f offset n ++ n.children.flatMap (nodeItems f offset) ++ [.endNode n.label] := by
  rw [nodeItems, Node.fold_eq, List.flatMap_def]
  rfl

/-- The items of the whole block. -/
def items (f : Features) (offset : String → Nat) (root : Node) : List Item :=
  nodeItems f offset root ++ [.finish]

/-- The bytes of an item that starts at `pos` in the block. -/
def Item.bytesAt (pos : Nat) : Item → Bytes
  | beginNode _ => BigEndian.word32 Token.beginNode.word
  | endNode _ => BigEndian.word32 Token.endNode.word
  | property _ => BigEndian.word32 Token.property.word
  | finish => BigEndian.word32 Token.finish.word
  | word n => BigEndian.encode 4 n
  | text s => Utf8.encode s ++ [0]
  | data bs => bs
  | align boundary => List.replicate (padding boundary pos) 0

/-- The bytes of a run of items that starts at `pos` in the block. -/
def bytesFrom : Nat → List Item → Bytes
  | _, [] => []
  | pos, item :: items => item.bytesAt pos ++ bytesFrom (pos + (item.bytesAt pos).length) items

/-- The bytes of a whole block. -/
def blockBytes (items : List Item) : Bytes :=
  bytesFrom 0 items

theorem bytesFrom_append (pos : Nat) (xs ys : List Item) :
    bytesFrom pos (xs ++ ys) = bytesFrom pos xs ++ bytesFrom (pos + (bytesFrom pos xs).length) ys := by
  induction xs generalizing pos with
  | nil => simp [bytesFrom]
  | cons x xs ih => simp [bytesFrom, ih, Nat.add_assoc]

/-- The name and the value's size of each property record of a node. -/
def recordSizes (f : Features) (n : Node) : List (String × Nat) :=
  n.properties.map (fun p => (p.name, p.value.length)) ++
    if storesName f n then [(baseNameProperty, StringTable.entrySize n.baseName)] else []

/-- The name and the value's size of each property record of a tree. -/
def storedSizes (f : Features) (root : Node) : List (String × Nat) :=
  root.preorder.flatMap (recordSizes f)

/-- The string table of a tree. -/
def stringTable (f : Features) (root : Node) : StringTable :=
  .ofList ((storedSizes f root).map (·.1))

end Structure

end DeviceTree
