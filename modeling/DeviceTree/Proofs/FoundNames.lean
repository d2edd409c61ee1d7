import DeviceTree.Proofs.StoredForm

/-!
# The names that a reading has found

Every property record leads to a name in the string block, and a record whose name is not there is not read. So where
a written tree has been read to its end, there was a name for each of its properties, at the place that the tree was
written with: a reading goes on past the items of a tree only by finding these names (`ReadsPast`), record by record,
and from the children of a node to the node by induction (`readsPast_nodeItems`).

* `findsAll_of_readTree`: the same for whole blocks, whatever their string block is.
-/

namespace DeviceTree

open BigEndian (word32)
open Format (NameAt)

namespace Structure

/-- The numbers in the records of a tree fit in 32 bits, and its nodes are stored as texts without a NUL. Whether the
names of the properties can be found does not matter. -/
def Storable (f : Features) (offset : String → Nat) (n : Node) : Prop :=
  ∀ m ∈ n.preorder, '\x00' ∉ (storedId f m).toList ∧
    ∀ p ∈ storedProperties f m, offset p.name < 0x100000000 ∧ p.value.length < 0x100000000

theorem Storable.child {f : Features} {offset : String → Nat} {n c : Node} (h : Storable f offset n)
    (hc : c ∈ n.children) : Storable f offset c :=
  fun m hm => h m (Node.mem_preorder_of_child hc hm)

theorem Storable.self {f : Features} {offset : String → Nat} {n : Node} (h : Storable f offset n) :
    '\x00' ∉ (storedId f n).toList ∧
      ∀ p ∈ storedProperties f n, offset p.name < 0x100000000 ∧ p.value.length < 0x100000000 :=
  h n n.mem_preorder_self

/-- The items of a node between its opening and its end. -/
def contentItems (f : Features) (offset : String → Nat) (n : Node) : List Item :=
  n.properties.flatMap (propertyItems f offset) ++ baseNameItems f offset n ++
    n.children.flatMap (nodeItems f offset)

theorem nodeItems_eq_content (f : Features) (offset : String → Nat) (n : Node) :
    nodeItems f offset n = openingItems f n ++ (contentItems f offset n ++ [.endNode n.label]) :=
  nodeItems_eq_opening n

/-- There is a name where the record of the property says that its name is. -/
def Finds (g : Format.Context) (offset : String → Nat) (p : Property) : Prop :=
  ∃ name, NameAt g.strings (offset p.name) name

/-- There is a name for every property in the tree. -/
def FindsAll (f : Features) (g : Format.Context) (offset : String → Nat) (n : Node) : Prop :=
  ∀ k ∈ n.preorder, ∀ p ∈ storedProperties f k, Finds g offset p

end Structure

namespace BlockReader

open Structure

variable {r : BlockReader} {g : Format.Context} {offset : String → Nat} {base pos : Nat} {m : Node}
  {outer : List Node} {rest : Bytes} {result : Node × Cursor}

/-- A record that is read refers to a name. -/
theorem nameAt_of_readProperty (hr : r.Reads g) {size offset : UInt32} {p : Property × Cursor}
    (h : r.readProperty (.inBlock base pos (word32 size ++ (word32 offset ++ rest))) = .ok p) :
    NameAt g.strings offset.toNat p.1.name := by
  obtain ⟨size', offset', c₁, c₂, _, h₁, h₂, hname, -⟩ := readProperty_eq_ok h
  have hsize : (Cursor.inBlock base pos (word32 size ++ (word32 offset ++ rest))).word = .ok (size, _) :=
    Cursor.word_eq_ok_iff.2 ⟨_, rfl, rfl⟩
  obtain ⟨-, rfl⟩ := Prod.mk.inj (Except.ok.inj (h₁.symm.trans hsize))
  have hoffset : (Cursor.inBlock base (pos + 4) (word32 offset ++ rest)).word = .ok (offset, _) :=
    Cursor.word_eq_ok_iff.2 ⟨_, rfl, rfl⟩
  obtain ⟨rfl, -⟩ := Prod.mk.inj (Except.ok.inj (h₂.symm.trans hoffset))
  exact hr.2 ▸ StringBlock.name_eq_ok_iff.1 hname

theorem readProperty_of_step {bs : Bytes} {p : Progress}
    (h : (r.step ⟨m, outer, .inBlock base pos (word32 Token.property.word ++ bs)⟩).result = .ok p) :
    ∃ x, r.readProperty (.inBlock base (pos + 4) bs) = .ok x := by
  rw [result_step_inBlock] at h
  obtain ⟨x, hread, -⟩ := map_eq_ok_iff.1 h
  exact ⟨x, hread⟩

/-- A reading that ends well begins with a step. -/
theorem step_of_readOpen {s : Reading} (h : (r.readOpen s).result = .ok result) : ∃ p, (r.step s).result = .ok p := by
  cases hs : (r.step s).result with
  | error e =>
    rw [readOpen_of_error hs] at h
    cases h
  | ok p => exact ⟨p, rfl⟩

/-- A reading that ends well has gone on past the items, and has found `P` there. -/
def ReadsPast (r : BlockReader) (items : List Item) (P : Prop) : Prop :=
  ∀ (base pos : Nat) (m : Node) (outer : List Node) (rest : Bytes) (result : Node × Cursor),
    (r.readOpen ⟨m, outer, .inBlock base pos (bytesFrom pos items ++ rest)⟩).result = .ok result →
      P ∧ ∃ m', (r.readOpen ⟨m', outer,
        .inBlock base (pos + (bytesFrom pos items).length) rest⟩).result = .ok result

theorem ReadsPast.append {xs ys : List Item} {P Q : Prop} (hx : r.ReadsPast xs P) (hy : r.ReadsPast ys Q) :
    r.ReadsPast (xs ++ ys) (P ∧ Q) := by
  intro base pos m outer rest result h
  rw [bytesFrom_append, List.append_assoc] at h
  obtain ⟨hP, m', h⟩ := hx _ _ _ _ _ _ h
  obtain ⟨hQ, m'', h⟩ := hy _ _ _ _ _ _ h
  rw [bytesFrom_append, List.length_append, ← Nat.add_assoc]
  exact ⟨⟨hP, hQ⟩, m'', h⟩

theorem ReadsPast.flatMap {α : Type} {l : List α} {items : α → List Item} {P : α → Prop}
    (h : ∀ a ∈ l, r.ReadsPast (items a) (P a)) : r.ReadsPast (l.flatMap items) (∀ a ∈ l, P a) := by
  induction l with
  | nil => exact fun _ _ m _ _ _ h => ⟨nofun, m, h⟩
  | cons a l ih =>
    obtain ⟨ha, hl⟩ := List.forall_mem_cons.1 h
    rw [List.flatMap_cons, List.forall_mem_cons]
    exact ha.append (ih hl)

theorem ReadsPast.congr {xs ys : List Item} {P : Prop} (h : r.ReadsPast xs P) (hsame : SameBytes ys xs) :
    r.ReadsPast ys P := by
  intro base pos
  rw [hsame pos]
  exact h base pos

/-- Where a written record has been read, its name was found. -/
theorem readsPast_propertyItems (hr : r.Reads g) {p : Property} (hoffset : offset p.name < 0x100000000)
    (hsize : p.value.length < 0x100000000) : r.ReadsPast (propertyItems r.features offset p) (Finds g offset p) := by
  intro base pos m outer rest result h
  have hfound : Finds g offset p := by
    obtain ⟨_, hstep⟩ := step_of_readOpen h
    rw [bytesFrom_propertyItems] at hstep
    simp only [List.append_assoc] at hstep
    obtain ⟨_, hread⟩ := readProperty_of_step hstep
    have hname := nameAt_of_readProperty hr hread
    rw [BigEndian.toNat_word hoffset] at hname
    exact ⟨_, hname⟩
  obtain ⟨name, hname⟩ := hfound
  have hrecord := isProperty_written hname hoffset hsize pos
  rw [← hr.1] at hrecord
  rw [readOpen_of_reading ((step_eq_ok_iff hr).2 (.property hrecord))] at h
  exact ⟨⟨name, hname⟩, _, h⟩

/-- Where a written opening has been read, a node was opened. -/
theorem readOpen_of_openingItems {n : Node} (hnul : '\x00' ∉ (storedId r.features n).toList)
    (h : (r.readOpen ⟨m, outer,
      .inBlock base pos (bytesFrom pos (openingItems r.features n) ++ rest)⟩).result = .ok result) :
    ∃ k, (r.readOpen ⟨k, m :: outer,
      .inBlock base (pos + (bytesFrom pos (openingItems r.features n)).length) rest⟩).result = .ok result := by
  have hopening : faultOnly (r.readOpen ⟨m, outer,
      .inBlock base pos (bytesFrom pos (openingItems r.features n) ++ rest)⟩).result = _ :=
    readOpen_openingItems m outer pos rest hnul
  rw [h] at hopening
  split at hopening
  · cases hopening
  · cases hk : r.nodeStoredAs (some m.path) (storedId r.features n) with
    | none =>
      rw [hk] at hopening
      cases hopening
    | some k =>
      rw [hk] at hopening
      exact ⟨k, faultOnly_eq_ok_iff.1 hopening.symm⟩

/-- Where the content of a written node has been read, the names in it were found: its own and those of its children. -/
theorem readsPast_contentItems (hr : r.Reads g) {n : Node} (hstorable : Storable r.features offset n)
    (hchildren : ∀ c ∈ n.children, r.ReadsPast (nodeItems r.features offset c) (FindsAll r.features g offset c)) :
    r.ReadsPast (contentItems r.features offset n) (FindsAll r.features g offset n) := by
  have hrecords : r.ReadsPast (n.properties.flatMap (propertyItems r.features offset) ++
      baseNameItems r.features offset n) (∀ p ∈ storedProperties r.features n, Finds g offset p) := by
    have hstored := ReadsPast.flatMap fun p hp =>
      readsPast_propertyItems hr (hstorable.self.2 p hp).1 (hstorable.self.2 p hp).2
    exact hstored.congr (bytesFrom_records n)
  intro base pos m outer rest result h
  obtain ⟨⟨hself, hbelow⟩, m', h⟩ := (hrecords.append (.flatMap hchildren)) _ _ _ _ _ _ h
  refine ⟨fun k hk => ?_, m', h⟩
  rcases Node.mem_preorder_iff.1 hk with rfl | ⟨c, hc, hk⟩
  · exact hself
  · exact hbelow c hc k hk

/-- Where a written node has been read, all its names were found. -/
theorem readsPast_nodeItems (hr : r.Reads g) (n : Node) :
    Storable r.features offset n → r.ReadsPast (nodeItems r.features offset n) (FindsAll r.features g offset n) := by
  induction n using Node.induction with
  | step n ih =>
    intro hstorable base pos m outer rest result h
    have hcontent := readsPast_contentItems hr hstorable fun c hc => ih c hc (hstorable.child hc)
    rw [nodeItems_eq_content, bytesFrom_append, bytesFrom_append, bytesFrom_endNode] at h ⊢
    simp only [List.append_assoc, List.length_append, ← Nat.add_assoc] at h ⊢
    obtain ⟨k, h⟩ := readOpen_of_openingItems hstorable.self.1 h
    obtain ⟨hfound, k', h⟩ := hcontent _ _ _ _ _ _ h
    rw [readOpen_endNode hr] at h
    rw [BigEndian.length_word32]
    exact ⟨hfound, m.pushChild k', h⟩

theorem readOpen_of_readTree {n back : Node} (hnul : '\x00' ∉ (storedId r.features n).toList)
    (h : (r.readTree (.start base (bytesFrom 0 (openingItems r.features n) ++ rest))).result = .ok back) :
    ∃ k result, (r.readOpen ⟨k, [],
      .inBlock base (0 + (bytesFrom 0 (openingItems r.features n)).length) rest⟩).result = .ok result := by
  obtain ⟨tail, htail, hopening⟩ := readOpening_openingItems base hnul 0
  have hnode := hopening none rest
  rw [Cursor.start_eq_inBlock, htail, List.append_assoc, result_readTree] at h
  obtain ⟨c, hexpect, h⟩ := bind_eq_ok_iff.1 h
  rw [expect_append] at hexpect
  obtain rfl := Except.ok.inj hexpect
  obtain ⟨⟨k, next⟩, hread, h⟩ := bind_eq_ok_iff.1 h
  obtain ⟨result, hbody, -⟩ := bind_eq_ok_iff.1 h
  rw [hread] at hnode
  split at hnode
  · cases hnode
  · obtain ⟨rfl, rfl⟩ := Prod.mk.inj (Except.ok.inj hnode)
    exact ⟨k, result, hbody⟩

/-- Where a written tree has been read, all its names were found. -/
theorem findsAll_of_readTree (hr : r.Reads g) {root back : Node} (hstorable : Storable r.features offset root)
    (h : (r.readTree (.start base (blockBytes (items r.features offset root) ++ rest))).result = .ok back) :
    FindsAll r.features g offset root := by
  rw [blockBytes, items, bytesFrom_append, nodeItems_eq_content, bytesFrom_append, bytesFrom_append] at h
  simp only [List.append_assoc] at h
  obtain ⟨k, result, hbody⟩ := readOpen_of_readTree hstorable.self.1 h
  have hcontent := readsPast_contentItems hr hstorable fun c hc => readsPast_nodeItems hr c (hstorable.child hc)
  exact (hcontent _ _ _ _ _ _ hbody).1

end BlockReader

end DeviceTree
