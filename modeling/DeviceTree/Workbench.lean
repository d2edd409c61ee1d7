import DeviceTree.Conversion
import DeviceTree.Decode.Damage

/-!
# A workbench for trees

A bench with named places for loose trees, one boot information and one blob. Steps make, change, attach and
copy nodes, write the boot information and read the blob; each step gives an answer. A step that refers to
something that is not there changes nothing and names it.
-/

namespace DeviceTree

/-- The slot name that stands for the root of the boot information. -/
def Workbench.rootSlot : String := "@root"

/-- What lies on the bench. -/
structure Workbench where
  /-- The loose trees, by the names of their slots. -/
  slots : List (String × Node) := []
  info? : Option BootInfo := none
  blob : Bytes := []
deriving DecidableEq, Repr

/-- A node on the bench: where to start, and the children's names that lead to it. -/
structure Address where
  slot : String
  names : List String := []
deriving DecidableEq, Repr

/-- Something to do at the bench. -/
inductive Step where
  /-- Puts a new node into a slot. -/
  | new (slot name : String)
  /-- Labels a node. -/
  | label (node : Address) (label : String)
  /-- Gives a node a property more. -/
  | addProperty (node : Address) (p : Property)
  /-- Attaches the tree of a slot, which then is empty, to a node. -/
  | attach (node : Address) (child : String)
  /-- Puts a copy of a node into a slot. -/
  | copy (node : Address) (slot : String)
  /-- Makes boot information of a copy of a node, without reservations. -/
  | setRoot (node : Address)
  /-- Shows a node. -/
  | inspect (node : Address)
  /-- Shows a node and all nodes below it. -/
  | dump (node : Address)
  /-- Looks up a property. -/
  | property (node : Address) (name : String)
  /-- Looks up a child. -/
  | child (node : Address) (name : String)
  /-- Looks up a node of the boot information by its path. -/
  | find (path : String)
  /-- Adds a reservation at the end. -/
  | reserve (r : Reservation)
  /-- Takes out the reservation at an index. -/
  | unreserve (index : Nat)
  /-- Writes the boot information as source text. -/
  | source
  /-- Writes the boot information as a blob, which then lies on the bench. -/
  | encode (s : Settings)
  /-- Writes the boot information as assembly text. -/
  | assemble (s : Settings)
  /-- Overwrites bytes of the blob. -/
  | patch (offset : Nat) (bytes : Bytes)
  /-- Cuts the blob after a number of bytes. -/
  | cut (length : Nat)
  /-- Adds bytes to the blob. -/
  | append (bytes : Bytes)
  /-- Reads the blob, whose boot information then lies on the bench. -/
  | decode
  /-- Compares two nodes. -/
  | compare (left right : Address)
deriving DecidableEq, Repr

/-- The answer to a step. -/
inductive Answer where
  /-- The slot or child of this name is not there. -/
  | missing (name : String)
  | node (n : Node)
  | tree (n : Node)
  | property (p : Option Property)
  | lookup (n : Option Node)
  | reservations (rs : List Reservation)
  | source (text : String)
  | blob (bytes : Bytes)
  | assembly (text : String)
  | refused (e : EncodeError)
  | size (n : Nat)
  | decoded (o : Outcome DecodeError BootInfo)
  | equal (b : Bool)

namespace Workbench

/-- The tree in a slot. -/
def slot? (w : Workbench) (name : String) : Option Node :=
  w.slots.lookup name

/-- The bench with a tree in a slot, in place of the one that was there. -/
def put (w : Workbench) (name : String) (n : Node) : Workbench :=
  { w with slots := (name, n) :: w.slots.filter (·.1 != name) }

/-- The bench with a slot empty. -/
def clear (w : Workbench) (name : String) : Workbench :=
  { w with slots := w.slots.filter (·.1 != name) }

/-- The tree where an address starts. -/
def start? (w : Workbench) (slot : String) : Option Node :=
  if slot = rootSlot then w.info?.map (·.root) else w.slot? slot

/-- The node at an address, or the name of what is not there. -/
def node (w : Workbench) (a : Address) : Except String Node :=
  match w.start? a.slot with
  | some n => n.descend a.names
  | none => .error a.slot

/-- The bench with another tree where an address starts. -/
def setStart (w : Workbench) (slot : String) (n : Node) : Workbench :=
  if slot = rootSlot then { w with info? := w.info?.map fun info => { info with root := n } }
  else w.put slot n

/-- The bench with the node at an address changed, or the name of what is not there. -/
def modify (w : Workbench) (a : Address) (f : Node → Node) : Except String Workbench :=
  match w.start? a.slot with
  | some n => (n.modifyAt f a.names).map (w.setStart a.slot)
  | none => .error a.slot

/-- Does something with the node at an address. -/
def atNode (w : Workbench) (a : Address) (f : Node → Workbench × Answer) : Workbench × Answer :=
  match w.node a with
  | .ok n => f n
  | .error name => (w, .missing name)

/-- Changes the node at an address and shows it. -/
def change (w : Workbench) (a : Address) (f : Node → Node) : Workbench × Answer :=
  match w.modify a f with
  | .ok w' => w'.atNode a fun n => (w', .node n)
  | .error name => (w, .missing name)

/-- Does something with the boot information. -/
def atInfo (w : Workbench) (f : BootInfo → Workbench × Answer) : Workbench × Answer :=
  match w.info? with
  | some info => f info
  | none => (w, .missing rootSlot)

/-- Sets the reservations and shows them. -/
def setReservations (w : Workbench) (info : BootInfo) (rs : List Reservation) : Workbench × Answer :=
  ({ w with info? := some { info with reservations := rs } }, .reservations rs)

/-- Sets the blob and gives its size. -/
def setBlob (w : Workbench) (bytes : Bytes) : Workbench × Answer :=
  ({ w with blob := bytes }, .size bytes.length)

/-- Does one step. -/
def step (w : Workbench) : Step → Workbench × Answer
  | .new slot name => (w.put slot (.named name), .node (.named name))
  | .label a label => w.change a fun n => { n with label := some label }
  | .addProperty a p => w.change a (·.addProperty p)
  | .attach a child =>
    match if child = a.slot then none else w.slot? child with
    | none => (w, .missing child)
    | some n =>
      match w.node a with
      | .error name => (w, .missing name)
      | .ok _ => (w.clear child).change a (·.attach n)
  | .copy a slot => w.atNode a fun n => (w.put slot n, .node n)
  | .setRoot a => w.atNode a fun n => ({ w with info? := some { root := n } }, .node n)
  | .inspect a => w.atNode a fun n => (w, .node n)
  | .dump a => w.atNode a fun n => (w, .tree n)
  | .property a name => w.atNode a fun n => (w, .property (n.property? name))
  | .child a name => w.atNode a fun n => (w, .lookup (n.child? name))
  | .find path => w.atInfo fun info => (w, .lookup (info.find? path))
  | .reserve r => w.atInfo fun info => w.setReservations info (info.reservations ++ [r])
  | .unreserve index => w.atInfo fun info => w.setReservations info (info.reservations.eraseIdx index)
  | .source => w.atInfo fun info => (w, .source info.toSource)
  | .encode s => w.atInfo fun info =>
    match (info.toBlob s).result with
    | .ok bytes => ({ w with blob := bytes }, .blob bytes)
    | .error e => (w, .refused e)
  | .assemble s => w.atInfo fun info =>
    match info.toAssembly s with
    | .ok text => (w, .assembly text)
    | .error e => (w, .refused e)
  | .patch offset bytes => w.setBlob (Damage.overwrite w.blob offset bytes)
  | .cut length => w.setBlob (w.blob.take length)
  | .append bytes => w.setBlob (w.blob ++ bytes)
  | .decode =>
    let o := BootInfo.ofBlob w.blob
    match o.result with
    | .ok info => ({ w with info? := some info }, .decoded o)
    | .error _ => (w, .decoded o)
  | .compare left right =>
    w.atNode left fun m => w.atNode right fun n => (w, .equal (m == n))

/-- Does the steps one after the other and gives all answers. -/
def run (w : Workbench) : List Step → List Answer
  | [] => []
  | s :: steps =>
    let (w, answer) := w.step s
    answer :: w.run steps

end Workbench

end DeviceTree
