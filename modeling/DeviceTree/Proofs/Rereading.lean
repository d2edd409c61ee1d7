import DeviceTree.Proofs.Acceptance
import DeviceTree.Proofs.Writing

/-!
# What a written tree is read as

`readBack` says of a tree, without any bytes, what its structure block is read as: the nodes as they are stored,
or the first fault. The reader keeps step with it. A body is read into the innermost node (`readsBody`, by
induction on the tree), an opening opens a node or ends in the fault that `readBack` has there
(`readOpen_openingItems`), and so a whole block is read as `readBack` says (`readTree_blockBytes`), whatever the
lengths, alignments and offsets in it.

* `ofBlob_blobBytes`: the same for whole blobs.
-/

namespace DeviceTree

open BigEndian (word32)

/-- The result with only the fault of an error, not its place. -/
def faultOnly {α : Type} (result : Except DecodeError α) : Except Fault α :=
  result.mapError DecodeError.fault

theorem faultOnly_ok {α : Type} (a : α) : faultOnly (.ok a) = pure a := rfl

theorem faultOnly_bind {α β : Type} (x : Except DecodeError α) (f : α → Except DecodeError β) :
    faultOnly (x >>= f) = faultOnly x >>= fun a => faultOnly (f a) := by
  cases x <;> rfl

theorem faultOnly_eq_ok_iff {α : Type} {x : Except DecodeError α} {a : α} : faultOnly x = .ok a ↔ x = .ok a := by
  cases x with
  | ok a' =>
    refine ⟨fun h => ?_, fun h => ?_⟩
    · obtain rfl : a' = a := Except.ok.inj h
      rfl
    · obtain rfl := Except.ok.inj h
      rfl
  | error e => refine ⟨fun h => ?_, fun h => ?_⟩ <;> cases h

theorem faultOnly_eq_error_iff {α : Type} {x : Except DecodeError α} {fault : Fault} :
    faultOnly x = .error fault ↔ ∃ offset, x = .error ⟨fault, offset⟩ := by
  cases x with
  | ok a =>
    refine ⟨fun h => ?_, fun h => ?_⟩
    · cases h
    · obtain ⟨offset, h⟩ := h
      cases h
  | error e =>
    refine ⟨fun h => ⟨e.offset, ?_⟩, fun h => ?_⟩
    · obtain rfl := Except.error.inj h
      rfl
    · obtain ⟨offset, he⟩ := h
      rw [he]
      rfl

theorem Node.extend_extend (n : Node) (ps ps' : List Property) (cs cs' : List Node) :
    (n.extend ps cs).extend ps' cs' = n.extend (ps ++ ps') (cs ++ cs') := by
  simp [extend]

namespace Structure

theorem bytesFrom_endNode (pos : Nat) (label : Option String) :
    bytesFrom pos [.endNode label] = word32 Token.endNode.word := rfl

theorem bytesFrom_finish (pos : Nat) : bytesFrom pos [.finish] = word32 Token.finish.word := rfl

/-- Every record of the tree can be written so that it reads back. -/
def TreeFits (g : Format.Context) (offset : String → Nat) (n : Node) : Prop :=
  ∀ m ∈ n.preorder, '\x00' ∉ (storedId (.ofNumber g.version) m).toList ∧
    ∀ p ∈ storedProperties (.ofNumber g.version) m, Fits g offset p

theorem TreeFits.child {g : Format.Context} {offset : String → Nat} {n c : Node} (h : TreeFits g offset n)
    (hc : c ∈ n.children) : TreeFits g offset c :=
  fun m hm => h m (Node.mem_preorder_of_child hc hm)

theorem TreeFits.self {g : Format.Context} {offset : String → Nat} {n : Node} (h : TreeFits g offset n) :
    '\x00' ∉ (storedId (.ofNumber g.version) n).toList ∧
      ∀ p ∈ storedProperties (.ofNumber g.version) n, Fits g offset p :=
  h n n.mem_preorder_self

end Structure

namespace BlockReader

open Structure

variable {r : BlockReader} {g : Format.Context} {offset : String → Nat} {base : Nat}

/-- What a written tree is read as, where `depth` nodes are open, the innermost with the path `parent`: the
nodes as they are stored, with the properties that they are stored with, or the first fault. -/
def readBack (r : BlockReader) (n : Node) : (depth : Nat) → (parent : Option String) → Except Fault Node :=
  n.fold fun n below depth parent =>
    if maxNesting ≤ depth then .error .nestingTooDeep
    else match r.nodeStoredAs parent (storedId r.features n) with
      | none => .error (.pathMismatch (storedId r.features n) (parent.getD ""))
      | some m => do
        let children ← below.mapM fun child => child (depth + 1) (some m.path)
        return m.extend ((storedProperties r.features n).map Property.unlabelled) children

theorem readBack_eq (n : Node) (depth : Nat) (parent : Option String) :
    r.readBack n depth parent =
      if maxNesting ≤ depth then .error .nestingTooDeep
      else match r.nodeStoredAs parent (storedId r.features n) with
        | none => .error (.pathMismatch (storedId r.features n) (parent.getD ""))
        | some m => do
          let children ← n.children.mapM fun child => r.readBack child (depth + 1) (some m.path)
          return m.extend ((storedProperties r.features n).map Property.unlabelled) children := by
  rw [readBack, Node.fold_eq]
  simp only [List.mapM_map]
  rfl

/-- The opening of a node stored as `id`, read from behind its token. -/
theorem readOpening_stored {id : String} (parent : Option String) (pos : Nat) {fill : Bytes} (rest : Bytes)
    (hnul : '\x00' ∉ id.toList) (hfill : fill.length = padding 4 (pos + (Utf8.encode id).length + 1)) :
    faultOnly (r.readOpening parent (.inBlock base pos (Utf8.encode id ++ 0 :: fill ++ rest))).result =
      match r.nodeStoredAs parent id with
      | none => .error (.pathMismatch id (parent.getD ""))
      | some m => .ok (m, .inBlock base (pos + (Utf8.encode id).length + 1 + fill.length) rest) := by
  have hid : 0 ∉ Utf8.encode id := fun h => hnul (Utf8.zero_mem_encode_iff.1 h)
  have ht : (Cursor.inBlock base pos (Utf8.encode id ++ 0 :: fill ++ rest)).text = .ok (Utf8.encode id, _) :=
    Cursor.text_eq_ok_iff.2 ⟨fill, rest, rfl, hid, hfill, rfl⟩
  unfold readOpening
  rw [ht]
  simp only [Utf8.lossy_encode, Outcome.result_after]
  cases r.nodeStoredAs parent id <;> rfl

/-- Reading on at a token that opens a node. -/
theorem readOpen_beginNode (inner : Node) (outer : List Node) (pos : Nat) (rest : Bytes) :
    (r.readOpen ⟨inner, outer, .inBlock base pos (word32 Token.beginNode.word ++ rest)⟩).result =
      if maxNesting ≤ outer.length + 1 then .error ⟨.nestingTooDeep, base + (pos + 4)⟩
      else (r.readOpening (some inner.path) (.inBlock base (pos + 4) rest)).result >>= fun (n, next) =>
        (r.readOpen ⟨n, inner :: outer, next⟩).result := by
  have hstep : (r.step ⟨inner, outer, .inBlock base pos (word32 Token.beginNode.word ++ rest)⟩).result = _ :=
    result_step_inBlock inner outer .beginNode rest
  unfold stepAt at hstep
  split
  · rename_i hdepth
    simp only [hdepth, if_true] at hstep
    exact readOpen_of_error hstep
  · rename_i hdepth
    simp only [hdepth, if_false] at hstep
    cases ho : (r.readOpening (some inner.path) (.inBlock base (pos + 4) rest)).result with
    | error e =>
      rw [ho] at hstep
      exact readOpen_of_error hstep
    | ok p =>
      rw [ho] at hstep
      exact readOpen_of_reading hstep

/-- A written opening is a token and what is read behind it. -/
theorem readOpening_openingItems (base : Nat) {n : Node} (hnul : '\x00' ∉ (storedId r.features n).toList)
    (pos : Nat) :
    ∃ tail, bytesFrom pos (openingItems r.features n) = word32 Token.beginNode.word ++ tail ∧
      ∀ parent rest, faultOnly (r.readOpening parent (.inBlock base (pos + 4) (tail ++ rest))).result =
        match r.nodeStoredAs parent (storedId r.features n) with
        | none => .error (.pathMismatch (storedId r.features n) (parent.getD ""))
        | some m => .ok (m, .inBlock base (pos + (bytesFrom pos (openingItems r.features n)).length) rest) := by
  refine ⟨_, (bytesFrom_openingItems n pos).trans (List.append_assoc ..), fun parent rest => ?_⟩
  rw [bytesFrom_openingItems, readOpening_stored parent (pos + 4) rest hnul List.length_replicate]
  simp only [List.length_append, List.length_cons, BigEndian.length_word32, Nat.add_assoc, Nat.add_comm 1]

/-- Reading on at the opening of a written node. -/
theorem readOpen_openingItems (inner : Node) (outer : List Node) (pos : Nat) {n : Node} (rest : Bytes)
    (hnul : '\x00' ∉ (storedId r.features n).toList) :
    faultOnly (r.readOpen ⟨inner, outer,
        .inBlock base pos (bytesFrom pos (openingItems r.features n) ++ rest)⟩).result =
      if maxNesting ≤ outer.length + 1 then .error .nestingTooDeep
      else match r.nodeStoredAs (some inner.path) (storedId r.features n) with
        | none => .error (.pathMismatch (storedId r.features n) inner.path)
        | some m => faultOnly (r.readOpen ⟨m, inner :: outer,
            .inBlock base (pos + (bytesFrom pos (openingItems r.features n)).length) rest⟩).result := by
  obtain ⟨tail, htail, hread⟩ := readOpening_openingItems base hnul pos
  rw [htail, List.append_assoc, readOpen_beginNode, ← htail]
  split
  · rfl
  · rw [faultOnly_bind, hread]
    cases r.nodeStoredAs (some inner.path) (storedId r.features n) <;> rfl

/-- Reading on at the body of the written node, its children come back as `readBack` says, and what follows is
read with them in place. -/
def ReadsBody (r : BlockReader) (offset : String → Nat) (base : Nat) (n : Node) : Prop :=
  ∀ (m : Node) (outer : List Node) (pos : Nat) (tail : Bytes),
    faultOnly (r.readOpen ⟨m, outer,
        .inBlock base pos (bytesFrom pos (bodyItems r.features offset n) ++ tail)⟩).result =
      (n.children.mapM fun child => r.readBack child (outer.length + 1) (some m.path)) >>= fun children =>
        faultOnly (r.resume (m.extend ((storedProperties r.features n).map Property.unlabelled) children) outer
          (.inBlock base (pos + (bytesFrom pos (bodyItems r.features offset n)).length) tail))

theorem readOpen_nodes {ns : List Node} (hbody : ∀ n ∈ ns, r.ReadsBody offset base n)
    (hnul : ∀ n ∈ ns, '\x00' ∉ (storedId r.features n).toList) (m : Node) (outer : List Node) (pos : Nat)
    (tail : Bytes) :
    faultOnly (r.readOpen ⟨m, outer,
        .inBlock base pos (bytesFrom pos (ns.flatMap (nodeItems r.features offset)) ++ tail)⟩).result =
      (ns.mapM fun n => r.readBack n (outer.length + 1) (some m.path)) >>= fun children =>
        faultOnly (r.readOpen ⟨m.extend [] children, outer,
          .inBlock base (pos + (bytesFrom pos (ns.flatMap (nodeItems r.features offset))).length) tail⟩).result := by
  induction ns generalizing m pos with
  | nil =>
    rw [List.mapM_nil, pure_bind, Node.extend_nil]
    rfl
  | cons n ns ih =>
    obtain ⟨hn, hns⟩ := List.forall_mem_cons.1 hbody
    obtain ⟨hn', hns'⟩ := List.forall_mem_cons.1 hnul
    rw [List.flatMap_cons, nodeItems_eq_opening, bytesFrom_append, bytesFrom_append]
    simp only [List.length_append, List.append_assoc, ← Nat.add_assoc]
    rw [readOpen_openingItems _ _ _ _ hn', List.mapM_cons, readBack_eq]
    split
    · rfl
    · cases r.nodeStoredAs (some m.path) (storedId r.features n) with
      | none => rfl
      | some k =>
        dsimp only
        rw [hn, bind_assoc, bind_assoc]
        refine bind_congr fun children => ?_
        show faultOnly (r.readOpen ⟨m.pushChild _, outer, _⟩).result = _
        rw [ih hns hns', pure_bind, bind_assoc]
        refine bind_congr fun siblings => ?_
        rw [pure_bind, Node.extend_pushChild]

theorem readsBody (hr : r.Reads g) (n : Node) : TreeFits g offset n → r.ReadsBody offset base n := by
  induction n using Node.induction with
  | step n ih =>
    intro hfits m outer pos tail
    have hchildren : ∀ c ∈ n.children, r.ReadsBody offset base c := fun c hc => ih c hc (hfits.child hc)
    have hnul : ∀ c ∈ n.children, '\x00' ∉ (storedId r.features c).toList := fun c hc =>
      hr.1 ▸ (hfits.child hc).self.1
    have hcontent := isContent_records hfits.self.2 (outer.length + 1) m.path pos
    rw [← hr.1] at hcontent
    rw [bodyItems, bytesFrom_append, bytesFrom_append, bytesFrom_records, bytesFrom_endNode]
    simp only [List.length_append, List.append_assoc, ← Nat.add_assoc]
    rw [readOpen_content hr hcontent rfl rfl, readOpen_nodes hchildren hnul]
    refine bind_congr fun children => ?_
    rw [readOpen_endNode hr, Node.extend_extend, List.append_nil, List.nil_append, BigEndian.length_word32]

theorem expect_append (t : Token) (fault : UInt32 → Fault) (pos : Nat) (rest : Bytes) :
    expect t fault (.inBlock base pos (word32 t.word ++ rest)) = .ok (.inBlock base (pos + 4) rest) :=
  expect_eq_ok_iff.2 ⟨rest, rfl, rfl⟩

/-- A written tree, with any bytes behind its block, is read as `readBack` says. -/
theorem readTree_blockBytes (hr : r.Reads g) {root : Node} (hfits : TreeFits g offset root) (rest : Bytes) :
    faultOnly (r.readTree (.start base (blockBytes (items r.features offset root) ++ rest))).result =
      r.readBack root 0 none := by
  obtain ⟨tail, htail, hread⟩ := readOpening_openingItems base (hr.1 ▸ hfits.self.1) 0
  rw [blockBytes, items, bytesFrom_append, nodeItems_eq_opening, bytesFrom_append, Cursor.start_eq_inBlock]
  simp only [List.append_assoc]
  rw [result_readTree, htail, List.append_assoc, expect_append]
  show faultOnly ((r.readOpening none _).result >>= _) = _
  rw [faultOnly_bind, hread, ← htail, readBack_eq, if_neg (by decide)]
  cases r.nodeStoredAs none (storedId r.features root) with
  | none => rfl
  | some m =>
    show faultOnly ((r.readOpen _).result >>= _) = _
    rw [faultOnly_bind, readsBody hr root hfits, bind_assoc]
    refine bind_congr fun children => ?_
    simp only [resume, faultOnly_bind, faultOnly_ok, bytesFrom_finish, pure_bind, expect_append]

end BlockReader

/-! ## The whole blob -/

namespace BootInfo

open Structure

variable {info : BootInfo} {v : Version}

theorem isReservationMap_reservationMap (hwritable : info.Writable) (rest : Bytes) :
    Format.IsReservationMap (info.reservationMap ++ rest) info.reservations :=
  ⟨Reservation.terminator, rest, rfl, hwritable.sizes, rfl⟩

/-- What can be written is stored with properties that have no NUL in their names. -/
theorem Writable.nul_notMem_storedProperty (hwritable : info.Writable) {n : Node} (hn : n ∈ info.root.preorder)
    {p : Property} (hp : p ∈ storedProperties v.features n) : '\x00' ∉ p.name.toList := by
  rcases List.mem_append.1 hp with hp | hp
  · exact hwritable.properties n hn p hp
  · split at hp
    · obtain rfl := List.mem_singleton.1 hp
      exact (by decide : '\x00' ∉ baseNameProperty.toList)
    · exact absurd hp List.not_mem_nil

theorem fits_stringTable (hwritable : info.Writable) (hfit : info.SizesFit v) {n : Node}
    (hn : n ∈ info.root.preorder) {p : Property} (hp : p ∈ storedProperties v.features n) :
    Fits ⟨v.number, (info.stringTable v).toBytes⟩ (info.stringTable v).offset p := by
  have hstored : (p.name, p.value.length) ∈ storedSizes v.features info.root :=
    mem_storedSizes_iff.2 ⟨n, hn, p, hp, rfl⟩
  obtain ⟨hoffset, hsize⟩ := hfit.records _ hstored
  refine ⟨StringTable.nameAt_offset ?_ (hwritable.nul_notMem_storedProperty hn hp), hoffset, hsize⟩
  rw [stringTable, Structure.stringTable, StringTable.mem_ofList]
  exact List.mem_map.2 ⟨_, hstored, rfl⟩

theorem treeFits_stringTable (hwritable : info.Writable) (hfit : info.SizesFit v)
    (hids : ∀ n ∈ info.root.preorder, '\x00' ∉ (storedId v.features n).toList) :
    TreeFits ⟨v.number, (info.stringTable v).toBytes⟩ (info.stringTable v).offset info.root := by
  intro n hn
  show '\x00' ∉ (storedId (.ofNumber v.number) n).toList ∧ ∀ p ∈ storedProperties (.ofNumber v.number) n, _
  rw [Features.ofNumber_number]
  exact ⟨hids n hn, fun p hp => fits_stringTable hwritable hfit hn hp⟩

/-- A written blob is read as `readBack` says. -/
theorem ofBlob_blobBytes (hwritable : info.Writable) (hfit : info.SizesFit v) (bootCpuid : UInt32)
    (hids : ∀ n ∈ info.root.preorder, '\x00' ∉ (storedId v.features n).toList) :
    ∃ r : BlockReader, r.features = v.features ∧
      faultOnly (ofBlob (info.blobBytes v bootCpuid)).result =
        (r.readBack info.root 0 none).map fun root => { root, reservations := info.reservations } := by
  obtain ⟨hreservations, hstructure, hstrings, -⟩ := header_offsets bootCpuid hfit
  have hheader := isHeader_blobBytes bootCpuid hfit
  have hdelimited := hheader.delimited []
  rw [List.append_nil] at hdelimited
  have hbounds : (info.header v bootCpuid).checkBounds = .ok () :=
    (Header.checkBounds_eq_ok_iff hheader.totalSize.1).2 (bounds_blobBytes bootCpuid hfit)
  have hmap : readReservations (blockAt (info.blobBytes v bootCpuid) (info.header v bootCpuid).reservationsOffset) =
      .ok info.reservations := by
    rw [readReservations_blockAt_eq_ok_iff, hreservations, drop_reservationsOffset]
    exact isReservationMap_reservationMap hwritable _
  let r : BlockReader :=
    ⟨(info.header v bootCpuid).features, stringBlock (info.blobBytes v bootCpuid) (info.header v bootCpuid)⟩
  have hr : r.Reads ⟨v.number, (info.stringTable v).toBytes⟩ := by
    refine ⟨rfl, ?_⟩
    show ((info.blobBytes v bootCpuid).take (info.header v bootCpuid).stringsEnd).drop _ = _
    rw [Header.stringsEnd_eq hheader.totalSize.1, stringsEnd_blobBytes bootCpuid hfit, List.take_length, hstrings,
      drop_stringsOffset]
  have hfeatures : r.features = v.features := Features.ofNumber_number v
  have htree : faultOnly (r.readTree (blockAt (info.blobBytes v bootCpuid)
      (info.header v bootCpuid).structureOffset)).result = r.readBack info.root 0 none := by
    rw [blockAt, hstructure, drop_structureOffset, structureBlock, ← hfeatures]
    exact BlockReader.readTree_blockBytes hr (treeFits_stringTable hwritable hfit hids) _
  refine ⟨r, hfeatures, ?_⟩
  rw [result_ofBlob]
  simp only [hdelimited, hheader.parse, hbounds, hmap, faultOnly_bind, faultOnly_ok, pure_bind]
  rw [htree]
  cases r.readBack info.root 0 none <;> rfl

end BootInfo
end DeviceTree
