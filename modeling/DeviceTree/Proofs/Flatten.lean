import DeviceTree.Encode.Check
import DeviceTree.Proofs.StringTable

/-!
# A written tree against the grammar

The records that a tree is flattened into are those of the grammar: of a property (`isProperty_propertyItems`),
of all properties of a node with the one that may hold its base name (`isContent_records`), and the opening of a
node (`bytesFrom_openingItems`, `isOpening_iff_storedAs`). `Fits` says what they need: names that are in the
string block, and numbers that fit in 32 bits.
-/

namespace DeviceTree

open BigEndian (word32)

theorem BigEndian.word32_ofNat (n : Nat) : word32 (UInt32.ofNat n) = encode 4 n :=
  encode_congr 4 (by rw [UInt32.toNat_ofNat']; exact Nat.mod_mod n _)

theorem BigEndian.toNat_word {n : Nat} (h : n < 0x100000000) : (UInt32.ofNat n).toNat = n :=
  UInt32.toNat_ofNat_of_lt' h

/-- The property without its label. -/
def Property.unlabelled (p : Property) : Property :=
  { p with label := none }

namespace Structure

variable {f : Features} {offset : String → Nat} {g : Format.Context}

/-- The properties that the records of a node are for. -/
def storedProperties (f : Features) (n : Node) : List Property :=
  n.properties ++ if storesName f n then [⟨baseNameProperty, Utf8.encode n.baseName ++ [0], none⟩] else []

/-- What a node is stored as. -/
def storedId (f : Features) (n : Node) : String :=
  if f.fullPath then n.path else n.name

/-- The items of a node up to its properties. -/
def openingItems (f : Features) (n : Node) : List Item :=
  [.beginNode n.label, .text (storedId f n), .align 4]

/-- The items of a node behind its opening. -/
def bodyItems (f : Features) (offset : String → Nat) (n : Node) : List Item :=
  n.properties.flatMap (propertyItems f offset) ++ baseNameItems f offset n ++
    n.children.flatMap (nodeItems f offset) ++ [.endNode n.label]

theorem nodeItems_eq_opening (n : Node) : nodeItems f offset n = openingItems f n ++ bodyItems f offset n := by
  rw [nodeItems_eq, headItems, bodyItems, openingItems, storedId]
  simp only [List.append_assoc]

theorem recordSizes_eq (n : Node) :
    recordSizes f n = (storedProperties f n).map fun p => (p.name, p.value.length) := by
  rw [recordSizes, storedProperties, List.map_append]
  split
  · rw [List.map_singleton, StringTable.length_entry]
  · rfl

theorem mem_storedSizes_iff {root : Node} {q : String × Nat} :
    q ∈ storedSizes f root ↔
      ∃ n ∈ root.preorder, ∃ p ∈ storedProperties f n, (p.name, p.value.length) = q := by
  simp only [storedSizes, List.mem_flatMap, recordSizes_eq, List.mem_map]

/-! ## Records -/

/-- The zeros before a value that starts at `pos` or, aligned, behind it. -/
def valueGap (f : Features) (size pos : Nat) : Bytes :=
  List.replicate (if f.alignedValues ∧ 8 ≤ size then padding 8 pos else 0) 0

theorem bytesFrom_propertyItems (p : Property) (pos : Nat) :
    bytesFrom pos (propertyItems f offset p) =
      word32 Token.property.word ++ word32 (.ofNat p.value.length) ++ word32 (.ofNat (offset p.name)) ++
        valueGap f p.value.length (pos + 12) ++ p.value ++
          List.replicate (padding 4 (pos + 12 + (valueGap f p.value.length (pos + 12)).length + p.value.length)) 0 := by
  unfold propertyItems valueAlignment valueGap
  rw [BigEndian.word32_ofNat, BigEndian.word32_ofNat]
  by_cases h : f.alignedValues ∧ 8 ≤ p.value.length
  · simp [h, bytesFrom, Item.bytesAt]
  · simp [h, bytesFrom, Item.bytesAt]

/-- A property can be written so that it reads back. -/
structure Fits (g : Format.Context) (offset : String → Nat) (p : Property) : Prop where
  name : Format.NameAt g.strings (offset p.name) p.name
  offset_lt : offset p.name < 0x100000000
  size_lt : p.value.length < 0x100000000

/-- The record that is written for a property is that of any name which stands where the property's should. -/
theorem isProperty_written {p : Property} {name : String} (hname : Format.NameAt g.strings (offset p.name) name)
    (hoffset : offset p.name < 0x100000000) (hsize : p.value.length < 0x100000000) (pos : Nat) :
    Format.IsProperty g pos (bytesFrom pos (propertyItems (.ofNumber g.version) offset p))
      { name, value := p.value } := by
  have hsize' : (UInt32.ofNat p.value.length).toNat = p.value.length := BigEndian.toNat_word hsize
  have hoffset' : (UInt32.ofNat (offset p.name)).toNat = offset p.name := BigEndian.toNat_word hoffset
  rw [bytesFrom_propertyItems]
  refine .intro _ _ _ _ _ _ ?_ ?_ hsize'.symm List.length_replicate
  · rw [hoffset']
    exact hname
  · rw [hsize', valueGap, List.length_replicate]
    simp only [Features.ofNumber, decide_eq_true_eq]

theorem isProperty_propertyItems {p : Property} (h : Fits g offset p) (pos : Nat) :
    Format.IsProperty g pos (bytesFrom pos (propertyItems (.ofNumber g.version) offset p)) p.unlabelled :=
  isProperty_written h.name h.offset_lt h.size_lt pos

theorem bytesFrom_baseNameItems (n : Node) (pos : Nat) :
    bytesFrom pos (baseNameItems f offset n) =
      bytesFrom pos ((if storesName f n then [⟨baseNameProperty, Utf8.encode n.baseName ++ [0], none⟩]
        else []).flatMap (propertyItems f offset)) := by
  unfold baseNameItems
  split
  · have hlen := StringTable.length_entry n.baseName
    simp only [List.flatMap_cons, List.flatMap_nil, List.append_nil, propertyItems, hlen, bytesFrom_append]
    simp [bytesFrom, Item.bytesAt]
  · rfl

theorem bytesFrom_records (n : Node) (pos : Nat) :
    bytesFrom pos (n.properties.flatMap (propertyItems f offset) ++ baseNameItems f offset n) =
      bytesFrom pos ((storedProperties f n).flatMap (propertyItems f offset)) := by
  rw [storedProperties, List.flatMap_append, bytesFrom_append, bytesFrom_append, bytesFrom_baseNameItems]

theorem isContent_records {ps : List Property} (h : ∀ p ∈ ps, Fits g offset p) (depth : Nat) (path : String)
    (pos : Nat) :
    Format.IsContent g depth path pos (bytesFrom pos (ps.flatMap (propertyItems (.ofNumber g.version) offset)))
      (ps.map Property.unlabelled) [] := by
  induction ps generalizing pos with
  | nil => exact .nil
  | cons p ps ih =>
    obtain ⟨hp, hps⟩ := List.forall_mem_cons.1 h
    rw [List.flatMap_cons, bytesFrom_append]
    exact .property (isProperty_propertyItems hp pos) (ih hps _)

/-! ## Openings -/

theorem bytesFrom_openingItems (n : Node) (pos : Nat) :
    bytesFrom pos (openingItems f n) =
      word32 Token.beginNode.word ++ Utf8.encode (storedId f n) ++
        0 :: List.replicate (padding 4 (pos + 4 + (Utf8.encode (storedId f n)).length + 1)) 0 := by
  simp [openingItems, bytesFrom, Item.bytesAt, Nat.add_assoc]

theorem isOpening_openingItems {parent : Option String} {n : Node} {name path : String}
    (hnul : '\x00' ∉ (storedId f n).toList)
    (h : Format.StoredAs g.version parent (storedId f n) name path) (pos : Nat) :
    Format.IsOpening g parent pos (bytesFrom pos (openingItems f n)) name path := by
  rw [bytesFrom_openingItems]
  refine .intro _ _ name path (fun h => hnul (Utf8.zero_mem_encode_iff.1 h)) List.length_replicate ?_
  rw [Utf8.lossy_encode]
  exact h

end Structure
end DeviceTree
