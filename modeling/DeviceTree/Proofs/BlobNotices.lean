import DeviceTree.Proofs.Blame
import DeviceTree.Proofs.Notices
import DeviceTree.Proofs.StoredForm

/-!
# The notices of reading a blob

Before it comes to the tree, a reading has nothing to say but which header it found. So its notices are that one and
those of the tree, if the header puts the blocks inside the blob and the reservation map can be read (`ReachesTree`).

A written tree has a record for each item, and the nodes that begin with its records are stored as texts
(`exists_longest_blockBytes`), so that reading it has only irregular names to complain of.

* `ofBlob_notices`: which notices the reading of any bytes gives, in which order.
-/

namespace DeviceTree

open BigEndian (word32)
open Format (Begins Begun Context IsRecord Longest NoRecord Place Records rejection)

/-- The header puts the blocks inside the blob, and there is a reservation map where it says. -/
structure Format.ReachesTree (blob : Bytes) (h : Header) : Prop where
  reservations_lt : h.reservationsOffset.toNat < blob.length
  structure_lt : h.structureOffset.toNat < blob.length
  strings_le : h.stringsOffset.toNat ≤ blob.length
  stringsEnd_le : stringsEnd blob h ≤ blob.length
  reservations : ∃ rs, IsReservationMap (blob.drop h.reservationsOffset.toNat) rs

/-! ## Before the tree -/

namespace BootInfo

variable {bytes blob : Bytes} {h : Header}

theorem ofBlob_of_begins (hb : Begins bytes blob h) :
    ofBlob bytes = Outcome.after [.reading h] (.ofExcept h.checkBounds >>= fun _ =>
      .ofExcept (readReservations (blockAt blob h.reservationsOffset)) >>= fun reservations =>
        (BlockReader.readTree ⟨h.features, stringBlock blob h⟩ (blockAt blob h.structureOffset)) >>= fun root =>
          pure { root, reservations }) := by
  obtain ⟨⟨rest, rfl⟩, hheader⟩ := hb
  unfold ofBlob
  rw [hheader.delimited rest]
  show (Outcome.ofExcept (Header.parse blob) >>= _ : Outcome DecodeError BootInfo).after [] = _
  rw [hheader.parse]
  rfl

theorem notices_ofBlob_of_noHeader (h : ∀ blob header, ¬Begins bytes blob header) :
    (∃ e, (ofBlob bytes).result = .error e) ∧ (ofBlob bytes).notices = [] := by
  unfold ofBlob
  cases hblob : delimited bytes with
  | error e => exact ⟨⟨e, rfl⟩, rfl⟩
  | ok blob =>
    obtain ⟨rest, size, hbytes, -, hword, hsize, -⟩ := delimited_eq_ok_iff.1 hblob
    show (∃ e, (Outcome.ofExcept (Header.parse blob) >>= _ : Outcome DecodeError BootInfo).result = .error e) ∧
      (Outcome.ofExcept (Header.parse blob) >>= _ : Outcome DecodeError BootInfo).notices = []
    cases hparse : Header.parse blob with
    | error e => exact ⟨⟨e, rfl⟩, rfl⟩
    | ok header =>
      have hheader := (Header.parse_eq_ok_iff fun size' hword' => hword'.unique hword ▸ hsize).1 hparse
      exact absurd ⟨⟨rest, hbytes⟩, hheader⟩ (h blob header)

theorem notices_ofBlob_of_not_reachesTree (hb : Begins bytes blob h) (hnot : ¬Format.ReachesTree blob h) :
    (∃ e, (ofBlob bytes).result = .error e) ∧ (ofBlob bytes).notices = [.reading h] := by
  rw [ofBlob_of_begins hb]
  cases hbounds : h.checkBounds with
  | error e => exact ⟨⟨e, rfl⟩, rfl⟩
  | ok u =>
    rw [Outcome.ofExcept_ok_bind]
    cases hmap : readReservations (blockAt blob h.reservationsOffset) with
    | error e => exact ⟨⟨e, rfl⟩, rfl⟩
    | ok rs =>
      obtain ⟨hr, hs, hst, hend⟩ := (Header.checkBounds_eq_ok_iff hb.header.totalSize.1).1 hbounds
      exact absurd ⟨hr, hs, hst, hend, rs, readReservations_blockAt_eq_ok_iff.1 hmap⟩ hnot

/-- A reading that succeeds comes to the tree. -/
theorem reachesTree_of_ofBlob (hb : Begins bytes blob h) {info : BootInfo} (hread : (ofBlob bytes).result = .ok info) :
    Format.ReachesTree blob h := by
  refine Classical.byContradiction fun hnot => ?_
  obtain ⟨⟨e, he⟩, -⟩ := notices_ofBlob_of_not_reachesTree hb hnot
  rw [hread] at he
  cases he

/-- Once the reading has come to the tree, it is the reading of the tree. -/
theorem ofBlob_of_reachesTree (hb : Begins bytes blob h) (hreach : Format.ReachesTree blob h) :
    ∃ reservations, ofBlob bytes = Outcome.after [.reading h]
      (BlockReader.readTree ⟨h.features, stringBlock blob h⟩ (blockAt blob h.structureOffset) >>= fun root =>
        pure { root, reservations }) := by
  obtain ⟨hr, hs, hst, hend, rs, hmap⟩ := hreach
  have hbounds : h.checkBounds = .ok () := (Header.checkBounds_eq_ok_iff hb.header.totalSize.1).2 ⟨hr, hs, hst, hend⟩
  refine ⟨rs, ?_⟩
  rw [ofBlob_of_begins hb, hbounds, readReservations_blockAt_eq_ok_iff.2 hmap, Outcome.ofExcept_ok_bind,
    Outcome.ofExcept_ok_bind]

/-- The notices of the reading of a blob that comes to the tree. -/
theorem notices_ofBlob_of_reachesTree (hb : Begins bytes blob h) (hreach : Format.ReachesTree blob h)
    {front rest : Bytes} {place : Place} {begun : List Begun}
    (hlongest : Longest (.of blob h) (blob.drop h.structureOffset.toNat) front rest place begun) :
    (∀ info, (ofBlob bytes).result = .ok info →
      place = .behind ∧ begun.map Begun.title = info.root.titles ∧
        (ofBlob bytes).notices = .reading h :: begun.flatMap Begun.warnings) ∧
    ∀ e, (ofBlob bytes).result = .error e →
      (ofBlob bytes).notices = .reading h :: (begun.flatMap Begun.warnings ++ rejection rest e.fault) := by
  obtain ⟨rs, hread⟩ := ofBlob_of_reachesTree hb hreach
  obtain ⟨hok, herror⟩ := BlockReader.readTree_notices hb.header.reads h.structureOffset.toNat hlongest
  rw [← blockAt_eq_inBlock] at hok herror
  rw [hread]
  cases htree : (BlockReader.readTree ⟨h.features, stringBlock blob h⟩ (blockAt blob h.structureOffset)).result with
  | ok root =>
    obtain ⟨hplace, htitles, hnotices⟩ := hok root htree
    rw [Outcome.bind_of_ok htree]
    refine ⟨fun info hinfo => ?_, fun e he => ?_⟩
    · obtain rfl := Except.ok.inj hinfo
      refine ⟨hplace, htitles, ?_⟩
      rw [← hnotices]
      exact congrArg (_ :: ·) (List.append_nil _)
    · cases he
  | error e =>
    rw [Outcome.bind_of_error htree]
    refine ⟨fun info hinfo => ?_, fun e' he => ?_⟩
    · cases hinfo
    · obtain rfl : e = e' := Except.error.inj he
      rw [← herror e htree]
      rfl

end BootInfo

/-! ## Written trees -/

namespace BlockReader

open Structure

variable {r : BlockReader} {g : Context} {offset : String → Nat}

theorem of_readBack_eq_ok {n m : Node} {depth : Nat} {parent : Option String} (h : r.readBack n depth parent = .ok m) :
    depth < maxNesting ∧ ∃ k children, r.nodeStoredAs parent (storedId r.features n) = some k ∧
      (n.children.mapM fun child => r.readBack child (depth + 1) (some k.path)) = .ok children := by
  rw [readBack_eq] at h
  split at h
  · cases h
  · rename_i hdepth
    split at h
    · cases h
    · rename_i k hk
      obtain ⟨children, hchildren, -⟩ := bind_eq_ok_iff.1 h
      exact ⟨Nat.lt_of_not_le hdepth, k, children, hk, hchildren⟩

/-- The nodes that begin with these records are stored as texts. -/
def RecordsOfTexts (g : Context) (pos : Nat) (place : Place) (bs : Bytes) (place' : Place) : Prop :=
  ∃ begun, Records g pos place bs place' begun ∧ ∀ b ∈ begun, Utf8.IsForm b.id

variable {pos : Nat} {place place' place'' : Place} {bs bs' : Bytes}

theorem RecordsOfTexts.append (h : RecordsOfTexts g pos place bs place')
    (h' : RecordsOfTexts g (pos + bs.length) place' bs' place'') : RecordsOfTexts g pos place (bs ++ bs') place'' := by
  obtain ⟨begun, hrecords, hforms⟩ := h
  obtain ⟨begun', hrecords', hforms'⟩ := h'
  exact ⟨begun ++ begun', hrecords.append hrecords', List.forall_mem_append.2 ⟨hforms, hforms'⟩⟩

theorem recordsOfTexts_nil : RecordsOfTexts g pos place [] place :=
  ⟨[], .nil, nofun⟩

/-- A record with which no node begins. -/
theorem recordsOfTexts_silent (h : IsRecord g pos place bs place' []) : RecordsOfTexts g pos place bs place' :=
  ⟨[], h.records, nofun⟩

theorem recordsOfTexts_properties {ps : List Property} (h : ∀ p ∈ ps, Fits g offset p) (path : String)
    (around : List String) (pos : Nat) :
    RecordsOfTexts g pos (.inside path around)
      (bytesFrom pos (ps.flatMap (propertyItems (.ofNumber g.version) offset))) (.inside path around) := by
  induction ps generalizing pos with
  | nil => exact recordsOfTexts_nil
  | cons p ps ih =>
    obtain ⟨hp, hps⟩ := List.forall_mem_cons.1 h
    rw [List.flatMap_cons, bytesFrom_append]
    exact (recordsOfTexts_silent (.property (isProperty_propertyItems hp pos))).append (ih hps _)

/-- The opening that is written for a node is one of the grammar, and has the text that the node is stored as. -/
theorem opening_of_nodeStoredAs (hf : r.features = .ofNumber g.version) {n k : Node} {parent : Option String}
    (hk : r.nodeStoredAs parent (storedId r.features n) = some k) (hnul : '\x00' ∉ (storedId r.features n).toList)
    (pos : Nat) :
    Format.IsOpening g parent pos (bytesFrom pos (openingItems r.features n)) k.name k.path ∧
      Format.storedText (bytesFrom pos (openingItems r.features n)) = Utf8.encode (storedId r.features n) := by
  have hreads : Reads ⟨r.features, ⟨0, g.strings⟩⟩ g := ⟨hf, rfl⟩
  obtain ⟨name, path, hstored, rfl⟩ := (nodeStoredAs_eq_some_iff hreads).1 hk
  refine ⟨isOpening_openingItems hnul hstored pos, ?_⟩
  rw [bytesFrom_openingItems, List.append_assoc]
  exact Format.storedText_word (fun h => hnul (Utf8.zero_mem_encode_iff.1 h)) _ _

/-- A tree that is read back has a record for each of its items. -/
def WrittenInRecords (r : BlockReader) (g : Context) (offset : String → Nat) (n : Node) : Prop :=
  ∀ {path : String} {around : List String} {m : Node}, r.readBack n (around.length + 1) (some path) = .ok m →
    ∀ pos, RecordsOfTexts g pos (.inside path around) (bytesFrom pos (nodeItems r.features offset n)) (.inside path around)

theorem recordsOfTexts_nodes {ns : List Node} (h : ∀ n ∈ ns, r.WrittenInRecords g offset n) {path : String}
    {around : List String} {ms : List Node}
    (hread : (ns.mapM fun n => r.readBack n (around.length + 1) (some path)) = .ok ms) (pos : Nat) :
    RecordsOfTexts g pos (.inside path around) (bytesFrom pos (ns.flatMap (nodeItems r.features offset)))
      (.inside path around) := by
  induction ns generalizing pos ms with
  | nil => exact recordsOfTexts_nil
  | cons n ns ih =>
    obtain ⟨hn, hns⟩ := List.forall_mem_cons.1 h
    rw [List.mapM_cons] at hread
    obtain ⟨m, hm, hread⟩ := bind_eq_ok_iff.1 hread
    obtain ⟨ms, hms, -⟩ := bind_eq_ok_iff.1 hread
    rw [List.flatMap_cons, bytesFrom_append]
    exact (hn hm pos).append (ih hns hms _)

/-- The body of a node leads from inside the node to where its end leads. -/
theorem recordsOfTexts_bodyItems (hf : r.features = .ofNumber g.version) {n : Node}
    (hfits : ∀ p ∈ storedProperties (.ofNumber g.version) n, Fits g offset p)
    (hchildren : ∀ c ∈ n.children, r.WrittenInRecords g offset c) (path : String) (around : List String)
    {ms : List Node} (hread : (n.children.mapM fun c => r.readBack c (around.length + 1) (some path)) = .ok ms)
    (hend : ∀ pos, IsRecord g pos (.inside path around) (word32 Token.endNode.word) place []) (pos : Nat) :
    RecordsOfTexts g pos (.inside path around) (bytesFrom pos (bodyItems r.features offset n)) place := by
  have hproperties := recordsOfTexts_properties hfits path around pos
  rw [← hf] at hproperties
  rw [bodyItems, bytesFrom_append, bytesFrom_append, bytesFrom_records, bytesFrom_endNode]
  exact (hproperties.append (recordsOfTexts_nodes hchildren hread _)).append (recordsOfTexts_silent (hend _))

theorem writtenInRecords (hf : r.features = .ofNumber g.version) (n : Node) :
    TreeFits g offset n → r.WrittenInRecords g offset n := by
  induction n using Node.induction with
  | step n ih =>
    intro hfits path around m hm pos
    obtain ⟨hdepth, k, children, hk, hread⟩ := of_readBack_eq_ok hm
    obtain ⟨hnul, hproperties⟩ := hfits.self
    obtain ⟨hopening, htext⟩ := opening_of_nodeStoredAs hf hk (hf ▸ hnul) pos
    rw [nodeItems_eq_opening, bytesFrom_append]
    refine RecordsOfTexts.append ⟨_, (IsRecord.child hdepth hopening).records, ?_⟩
      (recordsOfTexts_bodyItems hf hproperties (fun c hc => ih c hc (hfits.child hc)) k.path (path :: around) hread
        (fun _ => .endNode) _)
    exact List.forall_mem_singleton.2 ⟨storedId r.features n, htext⟩

/-- In a written block that is read back, the records go as far as the root's end, and nodes are stored as texts. -/
theorem exists_longest_blockBytes (hf : r.features = .ofNumber g.version) {root m : Node}
    (hfits : TreeFits g offset root) (hm : r.readBack root 0 none = .ok m) (rest : Bytes) :
    ∃ front rest' begun, Longest g (blockBytes (items r.features offset root) ++ rest) front rest' .behind begun ∧
      ∀ b ∈ begun, Utf8.IsForm b.id := by
  obtain ⟨hdepth, k, children, hk, hread⟩ := of_readBack_eq_ok hm
  obtain ⟨hnul, hproperties⟩ := hfits.self
  obtain ⟨hopening, htext⟩ := opening_of_nodeStoredAs hf hk (hf ▸ hnul) 0
  have hroot : RecordsOfTexts g 0 .start (bytesFrom 0 (nodeItems r.features offset root)) .behind := by
    rw [nodeItems_eq_opening, bytesFrom_append]
    refine RecordsOfTexts.append ⟨_, (IsRecord.root hopening).records, ?_⟩
      (recordsOfTexts_bodyItems hf hproperties (fun c hc => writtenInRecords hf c (hfits.child hc)) k.path [] hread
        (fun _ => .endRoot) _)
    exact List.forall_mem_singleton.2 ⟨storedId r.features root, htext⟩
  obtain ⟨begun, hrecords, hforms⟩ := hroot
  rw [blockBytes, items, bytesFrom_append, List.append_assoc]
  refine ⟨_, _, begun, ⟨rfl, hrecords, fun _ _ _ _ _ h => ?_⟩, hforms⟩
  cases h

end BlockReader

namespace BootInfo

open Structure

variable {info back : BootInfo} {v : Version} {bootCpuid : UInt32}

/-- The notices about the names among these that are not regular. -/
def irregularNames (names : List String) : List Notice :=
  (names.filter fun name => ¬NodeName.Regular name).map .irregularName

/-- About nodes that are stored as texts there is nothing to say but that a name is not regular. -/
theorem flatMap_warnings {begun : List Begun} (h : ∀ b ∈ begun, Utf8.IsForm b.id) :
    begun.flatMap Begun.warnings = irregularNames (begun.map (·.name)) := by
  induction begun with
  | nil => rfl
  | cons b begun ih =>
    obtain ⟨hb, hbegun⟩ := List.forall_mem_cons.1 h
    rw [List.flatMap_cons, ih hbegun, Begun.warnings, Begun.replacement, if_pos hb, irregularNames, irregularNames,
      List.map_cons, List.filter_cons]
    by_cases hregular : NodeName.Regular b.name <;> simp [hregular]

theorem map_name_of_titles {begun : List Begun} {n : Node} (h : begun.map Begun.title = n.titles) :
    begun.map (·.name) = n.preorder.map (·.name) := by
  have hnames := congrArg (List.map Prod.fst) h
  rwa [Node.titles, List.map_map, List.map_map] at hnames

theorem notices_ofBlob_blobBytes (hwritable : info.Writable) (hfit : info.SizesFit v)
    (hids : ∀ n ∈ info.root.preorder, '\x00' ∉ (storedId v.features n).toList)
    (hread : (ofBlob (info.blobBytes v bootCpuid)).result = .ok back) :
    (ofBlob (info.blobBytes v bootCpuid)).notices =
      .reading (info.header v bootCpuid) :: irregularNames (back.root.preorder.map (·.name)) := by
  obtain ⟨r, hr, hblob⟩ := ofBlob_blobBytes hwritable hfit bootCpuid hids
  have hbegins := (isHeader_blobBytes bootCpuid hfit).begins
  have hreach := reachesTree_of_ofBlob hbegins hread
  obtain ⟨-, hstructure, hstrings, -⟩ := header_offsets bootCpuid hfit
  have hcontext : Context.of (info.blobBytes v bootCpuid) (info.header v bootCpuid) =
      ⟨v.number, (info.stringTable v).toBytes⟩ := by
    rw [Context.of, stringsEnd_blobBytes bootCpuid hfit, List.take_length, hstrings, drop_stringsOffset]
    rfl
  cases hback : r.readBack info.root 0 none with
  | error e =>
    rw [hread, hback] at hblob
    cases hblob
  | ok m =>
    have hfeatures : r.features = .ofNumber v.number := hr.trans (Features.ofNumber_number v).symm
    obtain ⟨front, rest, begun, hlongest, hforms⟩ := BlockReader.exists_longest_blockBytes hfeatures
      (treeFits_stringTable hwritable hfit hids) hback (info.stringTable v).toBytes
    rw [hr, ← structureBlock, ← drop_structureOffset info v bootCpuid, ← hstructure, ← hcontext] at hlongest
    obtain ⟨-, htitles, hnotices⟩ := (notices_ofBlob_of_reachesTree hbegins hreach hlongest).1 back hread
    rw [hnotices, flatMap_warnings hforms, map_name_of_titles htitles]

/-- A tree that comes back from the blob it was written to has the names of the nodes in it; before version 16, where it
comes back with the paths as well. -/
theorem names_of_ofBlob (hwritable : info.Writable) (hfit : info.SizesFit v)
    (hread : (ofBlob (info.blobBytes v bootCpuid)).result = .ok back)
    (hsame : v ≠ .v16 → back.root.titles = info.root.titles) :
    (∀ n ∈ info.root.preorder, '\x00' ∉ (storedId v.features n).toList) ∧
      back.root.preorder.map (·.name) = info.root.preorder.map (·.name) := by
  by_cases hv : v = .v16
  · subst hv
    have hids : ∀ n ∈ info.root.preorder, '\x00' ∉ (storedId Version.v16.features n).toList :=
      hwritable.nul_notMem_storedId fun h => absurd rfl h
    refine ⟨hids, ?_⟩
    -- the names are the texts that are stored
    have hform := congrArg (fun n => n.preorder.map Node.name) (storedForm_of_ofBlob hwritable hfit hids hread).2
    simp only [preorder_storedForm, List.map_map] at hform
    have hname (n : Node) : (Node.name ∘ storedForm Version.v16.features) n = n.name := by
      rw [Function.comp, storedForm_eq]
      rfl
    rwa [List.map_congr_left fun n _ => hname n, List.map_congr_left fun n _ => hname n] at hform
  · have hheld := ofBlob_held hread (version_blobBytes hfit bootCpuid)
    have htitles := hsame hv
    refine ⟨fun n hn => ?_, ?_⟩
    · -- the paths are those that were read
      have hmem : (n.name, n.path) ∈ back.root.titles := htitles ▸ List.mem_map_of_mem hn
      obtain ⟨m, hm, he⟩ := List.mem_map.1 hmem
      rw [storedId, if_pos (Version.byPaths hv).1, ← (Prod.mk.inj he).2]
      exact hheld.root.nul_notMem_path (Version.number_lt_of_ne hv) m hm
    · have hnames := congrArg (List.map Prod.fst) htitles
      rwa [Node.titles, Node.titles, List.map_map, List.map_map] at hnames

/-- A blob of version 16 with one node inside the root, stored as two bytes that are not UTF-8. -/
def blobNotUtf8 : Bytes :=
  [0xD00DFEED, 80, 52, 80, 36, 16, 16, 0, 0, 0, 0, 0, 0, 1, 0, 1].flatMap word32 ++ [0xFF, 0x20, 0, 0] ++
    [2, 2, 9].flatMap word32

/-- The records of its structure block. -/
theorem longest_blobNotUtf8 {g : Context} (hversion : g.version = 16) :
    Longest g (blobNotUtf8.drop 52) ((blobNotUtf8.drop 52).take 24) (word32 9) .behind
      [⟨[], "", "/"⟩, ⟨[0xFF, 0x20], "\uFFFD ", "/\uFFFD "⟩] := by
  have hstored (parent : Option String) (id : String) :
      Format.StoredAs g.version parent id id (Path.join (parent.getD "/") id) := by
    rw [hversion]
    exact ⟨rfl, rfl⟩
  have hroot : Format.IsOpening g none 0 _ "" "/" := .intro [] [0, 0, 0] "" "/" nofun rfl (hstored none "")
  have hchild : Format.IsOpening g (some "/") 8 _ "\uFFFD " "/\uFFFD " :=
    .intro [0xFF, 0x20] [0] _ _ (by decide) rfl (hstored (some "/") "\uFFFD ")
  refine ⟨rfl, ?_, fun _ _ _ _ _ h => nomatch h⟩
  exact .cons (.root hroot) (.cons (.child (by decide) hchild) (.cons .endNode (.cons .endRoot .nil)))

end BootInfo
end DeviceTree
