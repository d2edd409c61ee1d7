import DeviceTree.Proofs.DecodedPaths
import DeviceTree.Proofs.LegacyRoundTrip
import DeviceTree.Proofs.Refusal

/-!
# Writing what was read

What a blob can hold can be written again, but for names with a slash, which only blobs from version 16 on can
hold (`Held.writable`, `Held.checkWritable_invalidName_iff`). Stored by paths, it comes back with the base names
that it did not have (`ByPaths.readBack_of_held`): a path that was read once fits the one around it again, also
where it is not the one that would be worked out. Stored by names, it comes back as it is
(`Held.placedUnder_eq`).

* `reencode_decoded`: the same for whole blobs.
-/

namespace DeviceTree

open Format (StoredAs)

namespace Format.StoredAs

variable {version : UInt32} {parent : Option String} {id name path : String}

theorem path_eq_id (hversion : version < 16) (h : StoredAs version parent id name path) : path = id := by
  unfold StoredAs at h
  rw [if_pos hversion] at h
  exact h.1

theorem nul_notMem (h : StoredAs version parent id name path) (hid : '\x00' ∉ id.toList) :
    '\x00' ∉ name.toList := by
  unfold StoredAs at h
  split at h
  · cases parent with
    | none =>
      rw [h.2.2]
      decide
    | some parent =>
      obtain ⟨-, -, dir, rfl, -⟩ := h
      exact fun hmem => hid (by simp [hmem])
  · rw [h.1]
    exact hid

end Format.StoredAs

namespace Node

variable {version : UInt32} {parent : Option String} {n : Node}

theorem Held.hasStoredForm (h : n.Held version parent) :
    ∀ m ∈ n.preorder, ∃ around, m.HasStoredForm version around := by
  intro m hm
  induction n using Node.induction generalizing parent with
  | step n ih =>
    rcases mem_preorder_iff.1 hm with rfl | ⟨c, hc, hm⟩
    · exact ⟨parent, h.stored⟩
    · exact ih c hc (h.child hc) hm

theorem Held.nul_notMem (h : n.Held version parent) : ∀ m ∈ n.preorder, '\x00' ∉ m.name.toList := by
  intro m hm
  obtain ⟨_, id, hid, hstored⟩ := h.hasStoredForm m hm
  exact hstored.nul_notMem hid

theorem Held.slash_notMem (hversion : version < 16) (h : n.Held version parent) :
    ∀ m ∈ n.preorder, '/' ∉ m.name.toList := by
  intro m hm
  obtain ⟨_, id, -, hstored⟩ := h.hasStoredForm m hm
  exact hstored.slash_notMem hversion

theorem Held.nul_notMem_path (hversion : version < 16) (h : n.Held version parent) :
    ∀ m ∈ n.preorder, '\x00' ∉ m.path.toList := by
  intro m hm
  obtain ⟨_, id, hid, hstored⟩ := h.hasStoredForm m hm
  rw [hstored.path_eq_id hversion]
  exact hid

theorem Held.unlabelled_eq (h : n.Held version parent) : n.unlabelled = n := by
  induction n using Node.induction generalizing parent with
  | step n ih =>
    obtain ⟨hlabel, hproperties⟩ := h.plain n n.mem_preorder_self
    have hps : n.properties.map Property.unlabelled = n.properties :=
      map_eq_self fun p hp => by rw [Property.unlabelled, ← (hproperties p hp).2]
    have hcs : n.children.map unlabelled = n.children := map_eq_self fun c hc => ih c hc (h.child hc)
    rw [Node.unlabelled_eq, hps, hcs, ← hlabel, eta]

/-- Where nodes are stored by their names, the paths are those that are worked out. -/
theorem Held.placedUnder_eq (hversion : 16 ≤ version) (h : n.Held version parent) :
    n.placedUnder (parent.getD "/") = n := by
  induction n using Node.induction generalizing parent with
  | step n ih =>
    obtain ⟨_, -, hstored⟩ := h.stored
    unfold StoredAs at hstored
    rw [if_neg (UInt32.not_lt.2 hversion)] at hstored
    have hpath : Path.join (parent.getD "/") n.name = n.path := by rw [hstored.2, hstored.1]
    have hcs : n.children.map (placedUnder · n.path) = n.children := map_eq_self fun c hc => ih c hc (h.child hc)
    rw [placedUnder_eq, hpath, hcs, eta]

theorem unlabelled_withBaseNames (n : Node) : n.withBaseNames.unlabelled = n.unlabelled.withBaseNames := by
  induction n using Node.induction with
  | step n ih =>
    have hcs : (n.children.map withBaseNames).map unlabelled = (n.children.map unlabelled).map withBaseNames := by
      rw [List.map_map, List.map_map]
      exact List.map_congr_left ih
    have hany : (n.properties.map Property.unlabelled).any (·.name == "name") =
        n.properties.any (·.name == "name") := List.any_map
    rw [withBaseNames_eq, Node.unlabelled_eq, Node.unlabelled_eq n, withBaseNames_eq]
    dsimp only
    rw [hcs, hany]
    cases n.properties.any (·.name == "name") with
    | true => rfl
    | false => simp only [Bool.false_eq_true, if_false, List.map_append]; rfl

end Node

namespace BlockReader

open Structure

variable {r : BlockReader} {version : UInt32}

/-- A stored path fits the one around it again. -/
theorem ByPaths.nodeStoredAs_of_stored (hr : r.ByPaths) (hversion : version < 16) {parent : Option String}
    {n : Node} (h : n.HasStoredForm version parent) :
    r.nodeStoredAs parent n.path = some { name := n.name, path := n.path } := by
  obtain ⟨id, -, hstored⟩ := h
  unfold StoredAs at hstored
  rw [if_pos hversion] at hstored
  unfold nodeStoredAs
  rw [if_pos hr.fullPath, hstored.1, Path.nameWithin?_eq_some_iff.2 hstored.2]
  rfl

/-- What was read by paths comes back. -/
theorem ByPaths.readBack_of_held (hr : r.ByPaths) (hversion : version < 16) (n : Node) :
    ∀ (depth : Nat) (parent : Option String), n.Held version parent → depth + n.height ≤ maxNesting →
      r.readBack n depth parent = .ok n.withBaseNames.unlabelled := by
  induction n using Node.induction with
  | step n ih =>
    intro depth parent hheld hdepth
    obtain ⟨k, hk⟩ : ∃ k, n.height = k + 1 := ⟨_, Node.height_eq n⟩
    have hchildren := Node.height_le_iff.1 (Nat.le_of_eq hk)
    have hbelow : (n.children.mapM fun child => r.readBack child (depth + 1) (some n.path)) =
        .ok (n.children.map fun c => c.withBaseNames.unlabelled) :=
      mapM_eq_ok fun c hc => ih c hc (depth + 1) _ (hheld.child hc) (by have := hchildren c hc; omega)
    rw [readBack_eq, if_neg (by omega), hr.storedId_eq, hr.nodeStoredAs_of_stored hversion hheld.stored]
    dsimp only
    rw [hbelow, ← hr.extend_storedProperties]
    rfl

end BlockReader

/-! ## The whole blob -/

theorem findSome?_eq_map_find? {α β : Type} {f : α → Option β} {p : α → Bool} {g : α → β} {l : List α}
    (h : ∀ a ∈ l, f a = if p a then some (g a) else none) : l.findSome? f = (l.find? p).map g := by
  induction l with
  | nil => rfl
  | cons a l ih =>
    obtain ⟨ha, hl⟩ := List.forall_mem_cons.1 h
    rw [List.findSome?_cons, List.find?_cons, ha, ih hl]
    cases p a <;> rfl

/-- A name without a NUL keeps a node from being written by a slash only. -/
theorem Node.unwritableName?_eq {n : Node} (hname : '\x00' ∉ n.name.toList)
    (hproperties : ∀ p ∈ n.properties, '\x00' ∉ p.name.toList) :
    n.unwritableName? = if n.name.toList.contains '/' then some n.name else none := by
  have hany : n.name.toList.any (fun c => c == '\x00' || c == '/') = n.name.toList.contains '/' := by
    rw [Bool.eq_iff_iff, List.any_eq_true, List.contains_iff_mem]
    refine ⟨fun ⟨c, hc, h⟩ => ?_, fun h => ⟨'/', h, by decide⟩⟩
    rcases Bool.or_eq_true_iff.1 h with h | h
    · exact absurd (beq_iff_eq.1 h ▸ hc) hname
    · exact beq_iff_eq.1 h ▸ hc
  have hnone : n.properties.find? (·.name.toList.contains '\x00') = none :=
    List.find?_eq_none.2 fun p hp => by simpa using hproperties p hp
  rw [unwritableName?, hany, hnone]
  rfl

theorem Version.byPaths {v : Version} (hv : v ≠ .v16) :
    v.features.fullPath = true ∧ v.features.storedName = true := by
  cases v with
  | v1 => exact ⟨rfl, rfl⟩
  | v2 => exact ⟨rfl, rfl⟩
  | v3 => exact ⟨rfl, rfl⟩
  | v16 => exact absurd rfl hv

theorem Version.eq_v16_iff {n : UInt32} {v : Version} (hv : ofNumber? n = some v) : v = .v16 ↔ n = 16 := by
  rw [← number_of_ofNumber? hv]
  cases v <;> decide

theorem Version.ne_v16_of_mem {n : UInt32} {v : Version} (hv : ofNumber? n = some v) (hn : n ∈ [1, 2, 3]) :
    v ≠ .v16 := fun h => by
  rw [(eq_v16_iff hv).1 h] at hn
  exact absurd hn (by decide)

theorem Version.number_lt_of_ne {v : Version} (hv : v ≠ .v16) : v.number < 16 := by
  cases v with
  | v1 | v2 | v3 => decide
  | v16 => exact absurd rfl hv

namespace BootInfo

variable {info : BootInfo} {version : UInt32}

theorem Held.writable (h : info.Held version) (hslash : ∀ n ∈ info.root.preorder, '/' ∉ n.name.toList) :
    info.Writable :=
  ⟨h.sizes, fun n hn => ⟨h.root.nul_notMem n hn, hslash n hn⟩,
    fun n hn p hp => ((h.root.plain n hn).properties p hp).1⟩

/-- What can be held is refused for the first name in preorder with a slash. -/
theorem Held.checkWritable_invalidName_iff (h : info.Held version) {name : String} :
    info.checkWritable = .error (.invalidName name) ↔
      (info.root.preorder.find? (·.name.toList.contains '/')).map Node.name = some name := by
  rw [BootInfo.checkWritable_invalidName_iff h.sizes, findSome?_eq_map_find? fun n hn =>
    Node.unwritableName?_eq (h.root.nul_notMem n hn) fun p hp => ((h.root.plain n hn).properties p hp).1]

/-- A blob with its nodes stored by paths is read as `readBack` says of a reader by paths. -/
theorem ofBlob_blobBytes_of_paths {v : Version} (hwritable : info.Writable) (hfit : info.SizesFit v) (hv : v ≠ .v16)
    (hnul : ∀ n ∈ info.root.preorder, '\x00' ∉ n.path.toList) (bootCpuid : UInt32) :
    ∃ r : BlockReader, r.ByPaths ∧ faultOnly (ofBlob (info.blobBytes v bootCpuid)).result =
      (r.readBack info.root 0 none).map fun root => { root, reservations := info.reservations } := by
  obtain ⟨hfullPath, hstoredName⟩ := Version.byPaths hv
  have hids : ∀ n ∈ info.root.preorder, '\x00' ∉ (Structure.storedId v.features n).toList := fun n hn => by
    rw [Structure.storedId, if_pos hfullPath]
    exact hnul n hn
  obtain ⟨r, hr, hread⟩ := ofBlob_blobBytes hwritable hfit bootCpuid hids
  exact ⟨r, ⟨hr ▸ hfullPath, hr ▸ hstoredName⟩, hread⟩

/-- A blob with its nodes stored by names is read as what it was written from, with its paths worked out again. -/
theorem ofBlob_blobBytes_of_names (hwritable : info.Writable) (hfit : info.SizesFit .v16)
    (hlevels : info.root.height ≤ maxNesting) (bootCpuid : UInt32) :
    (ofBlob (info.blobBytes .v16 bootCpuid)).result = .ok { info with root := info.root.unlabelled.placedUnder "/" } := by
  obtain ⟨r, hr, hread⟩ := ofBlob_blobBytes hwritable hfit bootCpuid fun n hn => (hwritable.names n hn).1
  rw [BlockReader.readBack_of_names hr _ 0 none (by omega)] at hread
  exact faultOnly_eq_ok_iff.1 hread

/-- What was read from a blob before version 16 comes back from one. -/
theorem Held.ofBlob_of_paths {v : Version} (h : info.Held version) (hversion : version < 16)
    (hfit : info.SizesFit v) (hv : v ≠ .v16) (bootCpuid : UInt32) :
    (ofBlob (info.blobBytes v bootCpuid)).result = .ok { info with root := info.root.withBaseNames } := by
  have hwritable := h.writable (h.root.slash_notMem hversion)
  obtain ⟨r, hr, hread⟩ := ofBlob_blobBytes_of_paths hwritable hfit hv (h.root.nul_notMem_path hversion) bootCpuid
  rw [hr.readBack_of_held hversion _ 0 none h.root (by have := h.levels; omega),
    Node.unlabelled_withBaseNames, h.root.unlabelled_eq] at hread
  exact faultOnly_eq_ok_iff.1 hread

/-- What was read from a blob of version 16 or later comes back from one, if it can be written. -/
theorem Held.ofBlob_of_names (h : info.Held version) (hversion : 16 ≤ version) (hwritable : info.Writable)
    (hfit : info.SizesFit .v16) (bootCpuid : UInt32) :
    (ofBlob (info.blobBytes .v16 bootCpuid)).result = .ok info := by
  have hroot : info.root.placedUnder "/" = info.root := h.root.placedUnder_eq hversion
  rw [ofBlob_blobBytes_of_names hwritable hfit h.levels, h.root.unlabelled_eq, hroot]

/-- What was read can be written again, as far as its sizes fit. Read from a blob before version 16, it can be
written in every version, and in one before 16 it comes back whole, each node with a property for the base name if
it had none. Read from a later blob, it is refused just when a name has a slash, for the first one in preorder, and
in version 16 it comes back as it is. -/
theorem reencode_decoded {bytes : Bytes} {info : BootInfo} {version : UInt32}
    (hread : (ofBlob bytes).result = .ok info) (hversion : Header.fieldAt bytes .version = .ok version)
    {s : Settings} (hs : s.version ∈ [1, 2, 3, 16])
    (hsizes : ∀ q, (info.toBlob s).result ≠ .error (.tooLarge q)) :
    (version < 16 →
      ∃ b, (info.toBlob s).result = .ok b ∧
        (s.version ≠ 16 → (ofBlob b).result = .ok { info with root := info.root.withBaseNames })) ∧
    (16 ≤ version →
      (∀ name, (info.toBlob s).result = .error (.invalidName name) ↔
        (info.root.preorder.find? (·.name.toList.contains '/')).map Node.name = some name) ∧
      ((∀ n ∈ info.root.preorder, '/' ∉ n.name.toList) →
        ∃ b, (info.toBlob s).result = .ok b ∧ (s.version = 16 → (ofBlob b).result = .ok info))) := by
  have hheld := ofBlob_held hread hversion
  obtain ⟨v, hv⟩ := Version.exists_of_mem hs
  refine ⟨fun hlow => ?_, fun hhigh => ⟨fun name => ?_, fun hslash => ?_⟩⟩
  · have hwritable := hheld.writable (hheld.root.slash_notMem hlow)
    obtain ⟨hfit, hb⟩ := toBlob_of_writable hv hwritable hsizes
    refine ⟨_, hb, fun hne => ?_⟩
    exact hheld.ofBlob_of_paths hlow hfit (fun heq => hne ((Version.eq_v16_iff hv).1 heq)) s.blobCpuid
  · rw [toBlob_invalidName_iff hv, hheld.checkWritable_invalidName_iff]
  · have hwritable := hheld.writable hslash
    obtain ⟨hfit, hb⟩ := toBlob_of_writable hv hwritable hsizes
    refine ⟨_, hb, fun heq => ?_⟩
    obtain rfl := (Version.eq_v16_iff hv).2 heq
    exact hheld.ofBlob_of_names hhigh hwritable hfit s.blobCpuid

/-- A path with two slashes in a row comes back. -/
theorem reencode_decoded_doubled_slash :
    ∃ info b, (ofBlob (blobWithChild "//a")).result = .ok info ∧ (info.toBlob { version := 3 }).result = .ok b ∧
      (ofBlob b).result = .ok { info with root := info.root.withBaseNames } := by
  let info : BootInfo := { root := { name := "", path := "/", children := [{ name := "a", path := "//a" }] } }
  have hread : (ofBlob (blobWithChild "//a")).result = .ok info := by decide +kernel
  have hversion : Header.fieldAt (blobWithChild "//a") .version = .ok 1 := by cbv
  have hsome : (info.toBlob { version := 3 }).result.toOption.isSome = true := by decide +kernel
  have hsizes (q : Quantity) : (info.toBlob { version := 3 }).result ≠ .error (.tooLarge q) := fun h => by
    rw [h] at hsome
    cases hsome
  obtain ⟨b, hb, hback⟩ := (reencode_decoded hread hversion (by decide) hsizes).1 (by decide)
  exact ⟨info, b, hread, hb, hback (by decide)⟩

end BootInfo
end DeviceTree
