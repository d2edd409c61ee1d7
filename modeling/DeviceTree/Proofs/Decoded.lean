import DeviceTree.Proofs.Acceptance
import DeviceTree.Proofs.Node
import DeviceTree.Proofs.Path

/-!
# What every tree that is read has

`Node.Held` says what a blob of a version can hold as a tree, whatever its bytes are: no labels, no NUL in the
name of a property, and every node stored as a text without a NUL that fits the node around it. It goes down the
tree (`Held.child`) and is put together from the children (`Held.intro`), so the trees of the grammar have it, by
induction on their contents (`IsContent.held`).

* `ofBlob_held`: the trees that are read have it, with no more levels than may be open at once and no reservation
  of size zero.
-/

namespace DeviceTree

open Format (StoredAs WordAt)

namespace Node

/-- The node is stored as a text without a NUL that gives it its name and its path. -/
def HasStoredForm (version : UInt32) (parent : Option String) (n : Node) : Prop :=
  ∃ id, '\x00' ∉ id.toList ∧ StoredAs version parent id n.name n.path

/-- Nothing of the node itself would be lost or cut short in a blob. -/
structure Plain (n : Node) : Prop where
  label : n.label = none
  properties : ∀ p ∈ n.properties, '\x00' ∉ p.name.toList ∧ p.label = none

/-- A blob of this version can hold the tree inside the node at `parent`, or inside no other. -/
structure Held (version : UInt32) (parent : Option String) (n : Node) : Prop where
  stored : n.HasStoredForm version parent
  below : ∀ m ∈ n.preorder, ∀ c ∈ m.children, c.HasStoredForm version (some m.path)
  plain : ∀ m ∈ n.preorder, m.Plain

variable {version : UInt32} {parent : Option String} {n : Node}

theorem Held.child (h : n.Held version parent) {c : Node} (hc : c ∈ n.children) : c.Held version (some n.path) :=
  ⟨h.below n n.mem_preorder_self c hc, fun m hm => h.below m (mem_preorder_of_child hc hm),
    fun m hm => h.plain m (mem_preorder_of_child hc hm)⟩

theorem Held.intro (hstored : n.HasStoredForm version parent) (hplain : n.Plain)
    (hchildren : ∀ c ∈ n.children, c.Held version (some n.path)) : n.Held version parent := by
  refine ⟨hstored, fun m hm => ?_, fun m hm => ?_⟩
  · rcases mem_preorder_iff.1 hm with rfl | ⟨c, hc, hm⟩
    · exact fun c hc => (hchildren c hc).stored
    · exact (hchildren c hc).below m hm
  · rcases mem_preorder_iff.1 hm with rfl | ⟨c, hc, hm⟩
    · exact hplain
    · exact (hchildren c hc).plain m hm

end Node

namespace Format

theorem NameAt.nul_notMem {strings : Bytes} {offset : Nat} {name : String} (h : NameAt strings offset name) :
    '\x00' ∉ name.toList := by
  obtain ⟨_, -, hnul⟩ := h
  exact fun hmem => hnul (Utf8.zero_mem_encode_iff.2 hmem)

variable {g : Context}

theorem IsProperty.plain {pos : Nat} {record : Bytes} {p : Property} (h : IsProperty g pos record p) :
    '\x00' ∉ p.name.toList ∧ p.label = none := by
  obtain ⟨_, _, _, _, _, _, hname, -, -, -⟩ := h
  exact ⟨hname.nul_notMem, rfl⟩

theorem IsOpening.hasStoredForm {parent : Option String} {pos : Nat} {opening : Bytes} {name path : String}
    (h : IsOpening g parent pos opening name path) (properties : List Property) (children : List Node) :
    ({ name, path, properties, children } : Node).HasStoredForm g.version parent := by
  obtain ⟨id, _, _, _, hid, -, hstored⟩ := h
  exact ⟨Utf8.lossy id, Utf8.nul_notMem_lossy hid, hstored⟩

/-- What a content of the grammar is made of. -/
theorem IsContent.held {depth pos : Nat} {path : String} {content : Bytes} {properties : List Property}
    {children : List Node} (h : IsContent g depth path pos content properties children) :
    (∀ p ∈ properties, '\x00' ∉ p.name.toList ∧ p.label = none) ∧
      ∀ c ∈ children, c.Held g.version (some path) ∧ depth + c.height ≤ maxNesting := by
  induction h with
  | nil => exact ⟨nofun, nofun⟩
  | property hp _ ih => exact ⟨List.forall_mem_cons.2 ⟨hp.plain, ih.1⟩, ih.2⟩
  | @child depth path name inner pos opening content more properties properties' children children' hdepth
      hopening _ _ ihcontent ihmore =>
    refine ⟨ihmore.1, List.forall_mem_cons.2 ⟨⟨?_, ?_⟩, ihmore.2⟩⟩
    · exact .intro (hopening.hasStoredForm _ _) ⟨rfl, ihcontent.1⟩ fun c hc => (ihcontent.2 c hc).1
    · -- the node's own level is the one that the grammar bounds
      have hlevels : ({ name, path := inner, properties := properties', children := children' } : Node).height ≤
          maxNesting - (depth + 1) + 1 :=
        Node.height_le_iff.2 fun c hc => by
          have := (ihcontent.2 c hc).2
          omega
      have : maxNesting = 256 := rfl
      omega

theorem IsTree.held {bs : Bytes} {root : Node} (h : IsTree g bs root) :
    root.Held g.version none ∧ root.height ≤ maxNesting := by
  obtain ⟨opening, content, rest, name, path, properties, children, hopening, hcontent⟩ := h
  obtain ⟨hproperties, hchildren⟩ := hcontent.held
  refine ⟨.intro (hopening.hasStoredForm _ _) ⟨rfl, hproperties⟩ fun c hc => (hchildren c hc).1, ?_⟩
  refine Node.height_le_iff.2 fun c hc => ?_
  have := (hchildren c hc).2
  have : maxNesting = 256 := rfl
  omega

end Format

namespace BootInfo

/-- A blob of this version can hold the boot information. -/
structure Held (version : UInt32) (info : BootInfo) : Prop where
  root : info.root.Held version none
  levels : info.root.height ≤ maxNesting
  sizes : ∀ r ∈ info.reservations, r.size ≠ 0

/-- What is read from a blob is something that a blob of its version can hold. -/
theorem ofBlob_held {bytes : Bytes} {info : BootInfo} {version : UInt32}
    (hread : (ofBlob bytes).result = .ok info) (hversion : Header.fieldAt bytes .version = .ok version) :
    info.Held version := by
  obtain ⟨blob, rest, rfl, header, hheader, -, -, -, -, hmap, htree⟩ := ofBlob_eq_ok_iff.1 hread
  obtain ⟨_, _, -, hsizes, -⟩ := hmap
  have hword : WordAt (blob ++ rest) 20 version := Header.fieldAt_eq_ok_iff.1 hversion
  have hlen := hheader.version.le_length
  obtain rfl : version = header.version :=
    ((Format.wordAt_append_iff rest hlen).1 hword).unique hheader.version
  exact ⟨htree.held.1, htree.held.2, hsizes⟩

end BootInfo

end DeviceTree
