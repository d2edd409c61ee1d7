import DeviceTree.NodeName
import DeviceTree.Path
import DeviceTree.Property

/-!
# Nodes

A node has a name, properties and children, and records its own full path. Building a tree keeps the recorded
paths in step: `attach` moves a whole subtree to its place. Reading a stored tree does not move anything:
`pushChild` keeps the path that was read.

Functions that go through a whole tree are given by `fold`, from the leaves up.

* `fold_eq`: the fold of a node is its step on the folds of its children;
* `induction`: what passes from all children to their parent holds of every node.
-/

namespace DeviceTree

/-- A node of a device tree, with all nodes below it. The path is the one recorded for the node. -/
structure Node where
  name : String
  path : String
  label : Option String := none
  properties : List Property := []
  children : List Node := []
deriving Repr

namespace Node

/-! ## Equality -/

mutual

/-- Decides whether two nodes are equal, recorded paths and labels included. -/
def decEq : (m n : Node) → Decidable (m = n)
  | ⟨name, path, label, properties, children⟩, ⟨name', path', label', properties', children'⟩ =>
    if h : name = name' ∧ path = path' ∧ label = label' ∧ properties = properties' then
      match decEqList children children' with
      | isTrue hc => isTrue (by rw [h.1, h.2.1, h.2.2.1, h.2.2.2, hc])
      | isFalse hc => isFalse fun he => hc (Node.mk.inj he).2.2.2.2
    else isFalse fun he => h ⟨(Node.mk.inj he).1, (Node.mk.inj he).2.1, (Node.mk.inj he).2.2.1,
      (Node.mk.inj he).2.2.2.1⟩

/-- Decides whether two lists of nodes are equal. -/
def decEqList : (ms ns : List Node) → Decidable (ms = ns)
  | [], [] => isTrue rfl
  | [], _ :: _ => isFalse nofun
  | _ :: _, [] => isFalse nofun
  | m :: ms, n :: ns =>
    match decEq m n with
    | isFalse h => isFalse fun he => h (List.cons.inj he).1
    | isTrue h =>
      match decEqList ms ns with
      | isTrue hs => isTrue (by rw [h, hs])
      | isFalse hs => isFalse fun he => hs (List.cons.inj he).2

end

instance : DecidableEq Node := decEq

/-! ## Going through a tree -/

section Fold

variable {β : Type}

mutual

/-- Works out a value for a node from the node and the values of its children, from the leaves up. -/
def fold (step : Node → List β → β) : Node → β
  | ⟨name, path, label, properties, children⟩ =>
    step ⟨name, path, label, properties, children⟩ (foldList step children)

/-- The values of `fold` for every node of a list. -/
def foldList (step : Node → List β → β) : List Node → List β
  | [] => []
  | n :: ns => fold step n :: foldList step ns

end

theorem foldList_eq_map (step : Node → List β → β) (ns : List Node) :
    foldList step ns = ns.map (fold step) := by
  induction ns with
  | nil => rfl
  | cons n ns ih => rw [foldList, ih, List.map_cons]

theorem fold_eq (step : Node → List β → β) (n : Node) :
    n.fold step = step n (n.children.map (fold step)) := by
  cases n
  rw [fold, foldList_eq_map]

end Fold

/-- Induction over a tree: a property that every node has once all its children have it. -/
theorem induction {motive : Node → Prop} (step : ∀ n, (∀ c ∈ n.children, motive c) → motive n) (n : Node) :
    motive n :=
  @Node.rec motive (fun ns => ∀ c ∈ ns, motive c)
    (fun _ _ _ _ _ ih => step _ ih) (fun _ h => absurd h List.not_mem_nil)
    (fun _ _ ihn ihs c hc => (List.mem_cons.1 hc).elim (fun h => h ▸ ihn) (ihs c)) n

/-- The node and all nodes below it, each before its children. -/
def preorder (n : Node) : List Node :=
  n.fold fun n below => n :: below.flatten

theorem preorder_eq (n : Node) : n.preorder = n :: n.children.flatMap preorder := by
  rw [preorder, fold_eq, List.flatMap_def]
  rfl

theorem mem_preorder_iff {n m : Node} : m ∈ n.preorder ↔ m = n ∨ ∃ c ∈ n.children, m ∈ c.preorder := by
  rw [preorder_eq, List.mem_cons, List.mem_flatMap]

theorem mem_preorder_self (n : Node) : n ∈ n.preorder :=
  mem_preorder_iff.2 (.inl rfl)

theorem mem_preorder_of_child {n c m : Node} (hc : c ∈ n.children) (hm : m ∈ c.preorder) : m ∈ n.preorder :=
  mem_preorder_iff.2 (.inr ⟨c, hc, hm⟩)

/-- The nodes of `preorder`, each with the number of nodes around it. -/
def preorderDepths (n : Node) : List (Nat × Node) :=
  n.fold (fun n (below : List (Nat → List (Nat × Node))) depth =>
    (depth, n) :: below.flatMap (· (depth + 1))) 0

/-- How many levels of nodes there are, the node itself included. -/
def height (n : Node) : Nat :=
  n.fold fun _ below => below.foldl max 0 + 1

/-! ## Names, properties and children -/

/-- A node on its own, placed under the root. -/
def named (name : String) : Node where
  name
  path := Path.join "/" name

/-- The name without its unit address. -/
def baseName (n : Node) : String :=
  NodeName.base n.name

/-- The first property with a name. -/
def property? (n : Node) (name : String) : Option Property :=
  n.properties.find? (·.name == name)

/-- The first child with a name. -/
def child? (n : Node) (name : String) : Option Node :=
  n.children.find? (·.name == name)

/-- The node with a property more, after those it has. -/
def addProperty (n : Node) (p : Property) : Node :=
  { n with properties := n.properties ++ [p] }

/-- The node with a child more, after those it has. The child stays as it is. -/
def pushChild (n child : Node) : Node :=
  { n with children := n.children ++ [child] }

/-- The tree with every recorded path worked out again, as it is for a child of the node at `parent`. -/
def placedUnder (n : Node) (parent : String) : Node :=
  n.fold (fun n (below : List (String → Node)) parent =>
    let path := Path.join parent n.name
    { n with path, children := below.map (· path) }) parent

theorem placedUnder_eq (n : Node) (parent : String) :
    n.placedUnder parent =
      { n with
        path := Path.join parent n.name
        children := n.children.map (placedUnder · (Path.join parent n.name)) } := by
  rw [placedUnder, fold_eq]
  simp only [List.map_map]
  rfl

/-- The node with a tree attached as its last child, moved to its new place. -/
def attach (n child : Node) : Node :=
  n.pushChild (child.placedUnder n.path)

/-- The subtrees of a list in preorder, each node with its depth and still without children. A node becomes the
child of the nearest one before it with a smaller depth. -/
def subtrees (nodes : List (Nat × Node)) : List (Nat × Node) :=
  nodes.foldr (fun (depth, n) later =>
    ((depth, (later.takeWhile (depth < ·.1)).foldl (fun n child => n.pushChild child.2) n) ::
      later.dropWhile (depth < ·.1))) []

/-- The tree whose nodes are listed in preorder, each with its depth and still without children. Its paths are
those of a tree at the root. -/
def ofPreorder? (nodes : List (Nat × Node)) : Option Node :=
  (subtrees nodes).head?.map fun tree => tree.2.placedUnder "/"

/-- The node that `names` lead to, each a child's name. If one is not there, that name. -/
def descend (n : Node) : List String → Except String Node
  | [] => .ok n
  | name :: names =>
    match n.child? name with
    | some child => child.descend names
    | none => .error name

/-- The node with the one that `names` lead to changed in its place. If one is not there, that name. -/
def modifyAt (f : Node → Node) : List String → Node → Except String Node
  | [], n => .ok (f n)
  | name :: names, n =>
    match n.children.span (·.name != name) with
    | (before, child :: after) =>
      (modifyAt f names child).map fun child => { n with children := before ++ child :: after }
    | (_, []) => .error name

end Node

end DeviceTree
