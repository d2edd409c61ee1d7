import DeviceTree.Proofs.Building

/-!
# What of a tree is stored

Which text a node is stored as and which properties it is stored with is up to the version. `storedForm` puts both
into the tree, and drops what is not stored. The bytes that are written depend on the stored form and on whether
values are aligned, and on nothing else (`sameBytes_nodeItems`, `storedSizes_eq`), so trees with the same stored form
are written alike (`blocks_congr`). What is read of a written tree has its stored form again
(`storedForm_of_readBack`): a name property that was made up while writing is one that is there after reading, and
none is made up any more (`storedProperties_of_stored`).

* `rewrite_identical`: what is read of a blob is written as the same blob, and the versions before 16 write the same
  blocks.
-/

namespace DeviceTree

/-- What the features still decide of a tree in its stored form. -/
def Features.alignment (f : Features) : Features where
  alignedValues := f.alignedValues

theorem Version.alignment_of_ne {v : Version} (hv : v ≠ .v16) : v.features.alignment = { alignedValues := true } := by
  cases v with
  | v1 | v2 | v3 => rfl
  | v16 => exact absurd rfl hv

namespace Structure

variable {f f' : Features} {offset : String → Nat}

/-- The tree as it is stored: each node with the text that it is stored as for its name, without a path and labels,
and with the property for its base name where it is stored with one. -/
def storedForm (f : Features) (n : Node) : Node :=
  n.fold fun n below =>
    { name := storedId f n
      path := ""
      properties := (storedProperties f n).map Property.unlabelled
      children := below }

theorem storedForm_eq (f : Features) (n : Node) :
    storedForm f n =
      { name := storedId f n
        path := ""
        properties := (storedProperties f n).map Property.unlabelled
        children := n.children.map (storedForm f) } :=
  Node.fold_eq ..

theorem preorder_storedForm (f : Features) (n : Node) :
    (storedForm f n).preorder = n.preorder.map (storedForm f) :=
  Node.preorder_map (fun n => by rw [storedForm_eq]) n

theorem storedProperties_storedForm (f : Features) (n : Node) :
    storedProperties f.alignment (storedForm f n) = (storedProperties f n).map Property.unlabelled := by
  rw [storedForm_eq]
  exact List.append_nil _

/-- The stored form depends on two features only. -/
theorem storedForm_congr (hfullPath : f.fullPath = f'.fullPath) (hstoredName : f.storedName = f'.storedName)
    (n : Node) : storedForm f n = storedForm f' n := by
  induction n using Node.induction with
  | step n ih =>
    have hid : storedId f n = storedId f' n := by rw [storedId, storedId, hfullPath]
    have hproperties : storedProperties f n = storedProperties f' n := by
      rw [storedProperties, storedProperties, storesName, storesName, hstoredName]
    rw [storedForm_eq, storedForm_eq, hid, hproperties, List.map_congr_left ih]

/-! ## What is written -/

/-- Two runs of items have the same bytes wherever they start. -/
def SameBytes (xs ys : List Item) : Prop :=
  ∀ pos, bytesFrom pos xs = bytesFrom pos ys

theorem SameBytes.append {xs xs' ys ys' : List Item} (hx : SameBytes xs xs') (hy : SameBytes ys ys') :
    SameBytes (xs ++ ys) (xs' ++ ys') := fun pos => by
  rw [bytesFrom_append, bytesFrom_append, hx, hy]

theorem SameBytes.flatMap {α : Type} {l : List α} {g g' : α → List Item} (h : ∀ a ∈ l, SameBytes (g a) (g' a)) :
    SameBytes (l.flatMap g) (l.flatMap g') := by
  induction l with
  | nil => exact fun _ => rfl
  | cons a l ih =>
    obtain ⟨ha, hl⟩ := List.forall_mem_cons.1 h
    rw [List.flatMap_cons, List.flatMap_cons]
    exact ha.append (ih hl)

/-- A tree is written as its stored form is. -/
theorem sameBytes_nodeItems (n : Node) :
    SameBytes (nodeItems f offset n) (nodeItems f.alignment offset (storedForm f n)) := by
  induction n using Node.induction with
  | step n ih =>
    have hopening : SameBytes (openingItems f n) (openingItems f.alignment (storedForm f n)) := fun pos => by
      rw [bytesFrom_openingItems, bytesFrom_openingItems, storedForm_eq]
      rfl
    have hrecords : SameBytes (n.properties.flatMap (propertyItems f offset) ++ baseNameItems f offset n)
        ((storedForm f n).properties.flatMap (propertyItems f.alignment offset) ++
          baseNameItems f.alignment offset (storedForm f n)) := fun pos => by
      -- a base name is written as the property that holds it would be
      rw [bytesFrom_records, bytesFrom_records, storedProperties_storedForm, List.flatMap_map]
      refine SameBytes.flatMap (fun p _ pos => ?_) pos
      rw [bytesFrom_propertyItems, bytesFrom_propertyItems]
      rfl
    have hchildren : SameBytes (n.children.flatMap (nodeItems f offset))
        ((storedForm f n).children.flatMap (nodeItems f.alignment offset)) := by
      rw [storedForm_eq, List.flatMap_map]
      exact .flatMap ih
    rw [nodeItems_eq_opening, nodeItems_eq_opening]
    exact hopening.append ((hrecords.append hchildren).append fun _ => rfl)

theorem blockBytes_items (root : Node) :
    blockBytes (items f offset root) = blockBytes (items f.alignment offset (storedForm f root)) :=
  (sameBytes_nodeItems root).append (fun _ => rfl) 0

theorem storedSizes_eq (root : Node) : storedSizes f root = storedSizes f.alignment (storedForm f root) := by
  have hsizes (n : Node) : recordSizes f.alignment (storedForm f n) = recordSizes f n := by
    rw [recordSizes_eq, recordSizes_eq, storedProperties_storedForm, List.map_map]
    rfl
  rw [storedSizes, storedSizes, preorder_storedForm, List.flatMap_map]
  simp only [hsizes]

theorem stringTable_eq (root : Node) : stringTable f root = stringTable f.alignment (storedForm f root) := by
  rw [stringTable, stringTable, storedSizes_eq]

/-- A node with the properties that another one is stored with is stored with no more. -/
theorem storedProperties_of_stored {m n : Node}
    (h : m.properties = (storedProperties f n).map Property.unlabelled) :
    storedProperties f m = (storedProperties f n).map Property.unlabelled := by
  have hall : storesName f m = (f.storedName && (storedProperties f n).all (·.name != baseNameProperty)) := by
    rw [storesName, h, List.all_map]
    rfl
  have hstores : storesName f m = false := by
    rw [hall, storedProperties]
    cases hn : storesName f n with
    | true => simp
    | false => simpa [storesName] using hn
  rw [storedProperties, hstores, h]
  exact List.append_nil _

end Structure

/-! ## What is read -/

namespace BlockReader

open Structure

variable {r : BlockReader}

/-- A node that is found stored as a text is stored as that text again, and has nothing else yet. -/
theorem storedId_of_nodeStoredAs {parent : Option String} {id : String} {m : Node}
    (h : r.nodeStoredAs parent id = some m) :
    storedId r.features m = id ∧ m.properties = [] ∧ m.children = [] := by
  unfold nodeStoredAs at h
  unfold storedId
  split at h
  · rename_i hfullPath
    obtain ⟨name, -, rfl⟩ := Option.map_eq_some_iff.1 h
    exact ⟨if_pos hfullPath, rfl, rfl⟩
  · rename_i hfullPath
    obtain rfl := Option.some.inj h
    exact ⟨if_neg hfullPath, rfl, rfl⟩

/-- What is read of a written tree has its stored form. -/
theorem storedForm_of_readBack (n : Node) :
    ∀ {depth : Nat} {parent : Option String} {m : Node}, r.readBack n depth parent = .ok m →
      storedForm r.features m = storedForm r.features n := by
  induction n using Node.induction with
  | step n ih =>
    intro depth parent m h
    rw [readBack_eq] at h
    split at h
    · cases h
    split at h
    · cases h
    · rename_i k hk
      obtain ⟨children, hread, h⟩ := bind_eq_ok_iff.1 h
      obtain ⟨hid, hproperties, hchildren⟩ := storedId_of_nodeStoredAs hk
      have hm : k.extend ((storedProperties r.features n).map Property.unlabelled) children = m := Except.ok.inj h
      have hid' : storedId r.features m = storedId r.features n := by
        rw [← hm]
        exact hid
      have hproperties' : m.properties = (storedProperties r.features n).map Property.unlabelled := by
        rw [← hm, Node.extend, hproperties]
        rfl
      have hchildren' : m.children = children := by
        rw [← hm, Node.extend, hchildren]
        rfl
      have hbelow : children.map (storedForm r.features) = n.children.map (storedForm r.features) :=
        map_of_mapM_eq_ok hread fun c hc d hd => ih c hc hd
      rw [storedForm_eq, storedForm_eq _ n, hid', storedProperties_of_stored hproperties', hchildren', hbelow,
        List.map_map]
      rfl

end BlockReader

/-! ## The whole blob -/

/-- The blocks of a blob behind its header. -/
structure Blocks where
  reservationMap : Bytes
  structureBlock : Bytes
  stringBlock : Bytes
deriving DecidableEq, Repr

/-- The blocks of a blob with this header, each from its offset up to the next one, the last up to the end. -/
def Header.blocks (h : Header) (blob : Bytes) : Blocks where
  reservationMap := (blob.take h.structureOffset.toNat).drop h.reservationsOffset.toNat
  structureBlock := (blob.take h.stringsOffset.toNat).drop h.structureOffset.toNat
  stringBlock := blob.drop h.stringsOffset.toNat

namespace BootInfo

open Structure

variable {info back : BootInfo} {v v' : Version} {bootCpuid : UInt32}

/-- What has the same stored form and is aligned alike is written with the same structure block and strings. -/
theorem blocks_congr (hform : storedForm v.features info.root = storedForm v'.features back.root)
    (halign : v.features.alignment = v'.features.alignment) :
    info.stringTable v = back.stringTable v' ∧ info.structureBlock v = back.structureBlock v' := by
  have htable : info.stringTable v = back.stringTable v' := by
    rw [stringTable, stringTable, stringTable_eq, stringTable_eq back.root, hform, halign]
  refine ⟨htable, ?_⟩
  rw [structureBlock, structureBlock, blockBytes_items, blockBytes_items back.root, hform, halign, htable]

/-- The blocks of a written blob are where its header has them. -/
theorem blocks_blobBytes (hfit : info.SizesFit v) (bootCpuid : UInt32) :
    (info.header v bootCpuid).blocks (info.blobBytes v bootCpuid) =
      ⟨info.reservationMap, info.structureBlock v, (info.stringTable v).toBytes⟩ := by
  obtain ⟨hreservations, hstructure, hstrings, -⟩ := header_offsets bootCpuid hfit
  have hmap := reservationMap_end info v
  have hblock := (layout_offsets_le info v).2.1
  unfold Header.blocks
  rw [hreservations, hstructure, hstrings, List.drop_take, List.drop_take, drop_reservationsOffset,
    drop_structureOffset, drop_stringsOffset, List.take_left' (by omega), List.take_left' (by omega)]

/-- What can be written is stored as texts without a NUL; by its paths, where these follow from one that has none. -/
theorem Writable.nul_notMem_storedId (hwritable : info.Writable)
    (hpaths : v ≠ .v16 → info.root.PathsFollow ∧ '\x00' ∉ info.root.path.toList) :
    ∀ n ∈ info.root.preorder, '\x00' ∉ (storedId v.features n).toList := by
  intro n hn
  by_cases hv : v = .v16
  · subst hv
    exact (hwritable.names n hn).1
  · obtain ⟨hfollow, hnul⟩ := hpaths hv
    rw [storedId, if_pos (Version.byPaths hv).1]
    exact hfollow.nul_notMem (fun m hm => (hwritable.names m hm).1) hnul n hn

/-- What is read of a written blob has its reservations and its stored form. -/
theorem storedForm_of_ofBlob (hwritable : info.Writable) (hfit : info.SizesFit v)
    (hids : ∀ n ∈ info.root.preorder, '\x00' ∉ (storedId v.features n).toList)
    (hread : (ofBlob (info.blobBytes v bootCpuid)).result = .ok back) :
    back.reservations = info.reservations ∧
      storedForm v.features back.root = storedForm v.features info.root := by
  obtain ⟨r, hr, hblob⟩ := ofBlob_blobBytes hwritable hfit bootCpuid hids
  rw [hread] at hblob
  cases hback : r.readBack info.root 0 none with
  | error e =>
    rw [hback] at hblob
    cases hblob
  | ok root =>
    rw [hback] at hblob
    obtain rfl := Except.ok.inj hblob
    exact ⟨rfl, hr ▸ BlockReader.storedForm_of_readBack _ hback⟩

/-- What is read of a written blob can be written again. -/
theorem writable_of_ofBlob (hwritable : info.Writable) (hfit : info.SizesFit v)
    (hids : ∀ n ∈ info.root.preorder, '\x00' ∉ (storedId v.features n).toList)
    (hread : (ofBlob (info.blobBytes v bootCpuid)).result = .ok back) : back.Writable := by
  have hheld := ofBlob_held hread (version_blobBytes hfit bootCpuid)
  refine hheld.writable fun n hn => ?_
  by_cases hv : v = .v16
  · -- the names are the texts that are stored
    subst hv
    have hlist := congrArg Node.preorder (storedForm_of_ofBlob hwritable hfit hids hread).2
    rw [preorder_storedForm, preorder_storedForm] at hlist
    obtain ⟨m, hm, hform⟩ := List.mem_map.1 (hlist ▸ List.mem_map_of_mem hn)
    rw [storedForm_eq, storedForm_eq _ n] at hform
    have hname : m.name = n.name := (Node.mk.inj hform).1
    exact hname ▸ (hwritable.names m hm).2
  · exact hheld.root.slash_notMem (Version.number_lt_of_ne hv) n hn

/-- What is read of a written blob is written as the same bytes again. -/
theorem blobBytes_of_ofBlob (hwritable : info.Writable) (hfit : info.SizesFit v)
    (hids : ∀ n ∈ info.root.preorder, '\x00' ∉ (storedId v.features n).toList)
    (hread : (ofBlob (info.blobBytes v bootCpuid)).result = .ok back) :
    back.SizesFit v ∧ back.blobBytes v bootCpuid = info.blobBytes v bootCpuid := by
  obtain ⟨hreservations, hform⟩ := storedForm_of_ofBlob hwritable hfit hids hread
  obtain ⟨htable, hblock⟩ := blocks_congr hform rfl
  have hsizes : back.blockSizes v = info.blockSizes v := by
    rw [blockSizes, blockSizes, htable, hblock, hreservations]
  have hlayout : back.layout v = info.layout v := by rw [layout, layout, hsizes]
  refine ⟨⟨?_, ?_⟩, ?_⟩
  · have hrecords := hfit.records
    unfold RecordsFit at hrecords ⊢
    rw [stringTable_eq, storedSizes_eq] at hrecords ⊢
    rw [hform]
    exact hrecords
  · rw [hlayout]
    exact hfit.total
  · rw [blobBytes, blobBytes, header, header, blocks, blocks, hlayout, hsizes, htable, hblock, reservationMap,
      reservationMap, hreservations]

/-- What is read of a written blob is written as the same blob again, byte for byte; before version 16, where the
paths follow from the root's and that has no NUL. And the blobs that the versions before 16 write of the same boot
information differ in their headers only. -/
theorem rewrite_identical (info : BootInfo) :
    (∀ (s : Settings) (b : Bytes) (back : BootInfo), (info.toBlob s).result = .ok b →
      (s.version ≠ 16 → info.root.PathsFollow ∧ '\x00' ∉ info.root.path.toList) →
      (ofBlob b).result = .ok back → (back.toBlob s).result = .ok b) ∧
    (∀ (s s' : Settings) (b b' : Bytes), s.version ∈ [1, 2, 3] → s'.version ∈ [1, 2, 3] →
      (info.toBlob s).result = .ok b → (info.toBlob s').result = .ok b' →
      ∃ h h', Header.parse b = .ok h ∧ Header.parse b' = .ok h' ∧ h.blocks b = h'.blocks b') := by
  refine ⟨fun s b back hb hpaths hread => ?_, fun s s' b b' hs hs' hb hb' => ?_⟩
  · obtain ⟨v, hv, hwritable, hfit, rfl⟩ := toBlob_eq_ok_iff.1 hb
    have hids := hwritable.nul_notMem_storedId fun hne => hpaths fun h => hne ((Version.eq_v16_iff hv).2 h)
    obtain ⟨hfit', hbytes⟩ := blobBytes_of_ofBlob hwritable hfit hids hread
    exact toBlob_eq_ok_iff.2 ⟨v, hv, writable_of_ofBlob hwritable hfit hids hread, hfit', hbytes.symm⟩
  · obtain ⟨v, hv, -, hfit, rfl⟩ := toBlob_eq_ok_iff.1 hb
    obtain ⟨v', hv', -, hfit', rfl⟩ := toBlob_eq_ok_iff.1 hb'
    have hne := Version.ne_v16_of_mem hv hs
    have hne' := Version.ne_v16_of_mem hv' hs'
    have hform : storedForm v.features info.root = storedForm v'.features info.root :=
      storedForm_congr ((Version.byPaths hne).1.trans (Version.byPaths hne').1.symm)
        ((Version.byPaths hne).2.trans (Version.byPaths hne').2.symm) _
    obtain ⟨htable, hblock⟩ := blocks_congr hform
      ((Version.alignment_of_ne hne).trans (Version.alignment_of_ne hne').symm)
    refine ⟨_, _, (isHeader_blobBytes s.blobCpuid hfit).parse, (isHeader_blobBytes s'.blobCpuid hfit').parse, ?_⟩
    rw [blocks_blobBytes hfit, blocks_blobBytes hfit', htable, hblock]

theorem rewrite_identical_sample :
    ∃ b b' back, (sample.toBlob { version := 3 }).result = .ok b ∧ (ofBlob b).result = .ok back ∧
      (back.toBlob { version := 3 }).result = .ok b ∧ (sample.toBlob { version := 1 }).result = .ok b' ∧
        ∃ h h', Header.parse b = .ok h ∧ Header.parse b' = .ok h' ∧ h.blocks b = h'.blocks b' := by
  obtain ⟨b, hb⟩ : ∃ b, (sample.toBlob { version := 3 }).result = .ok b := ⟨_, rfl⟩
  obtain ⟨b', hb'⟩ : ∃ b, (sample.toBlob { version := 1 }).result = .ok b := ⟨_, rfl⟩
  have hpaths : sample.root.PathsFollow := by decide
  obtain ⟨back, hread⟩ := (round_trip_by_paths (by decide) hb (by decide) ⟨⟨"/", by decide⟩, hpaths⟩ (by decide)).1.2
    (by decide)
  obtain ⟨hsame, hblocks⟩ := rewrite_identical sample
  exact ⟨b, b', back, hb, hread, hsame _ b back hb (fun _ => ⟨hpaths, by decide⟩) hread, hb',
    hblocks _ _ b b' (by decide) (by decide) hb hb'⟩

end BootInfo

end DeviceTree
