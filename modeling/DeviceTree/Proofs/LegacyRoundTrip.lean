import DeviceTree.Proofs.Path
import DeviceTree.Proofs.RoundTrip

/-!
# The round trip by paths

Before version 16, nodes are stored by their paths, and a path has to hang off the one around it. In a tree whose
paths are consistent this fails in two places only: at a root with another path than a slash, and under a path
that ends in a slash (`Path.Bears`). A tree without such places comes back whole, each node with a property for
its base name (`below_of_bears`); one with such a place ends in a mismatch (`below_of_not_bears`).

* `round_trip_by_paths`: the same for whole blobs.
-/

namespace DeviceTree

namespace Node

/-- Every recorded path is the join of the path around it and the node's name. The root's was joined to some path
too, as that of a node on its own is to a slash. -/
def PathsConsistent (n : Node) : Prop :=
  (∃ parent, n.path = Path.join parent n.name) ∧
    ∀ m ∈ n.preorder, ∀ c ∈ m.children, c.path = Path.join m.path c.name

/-- The tree with a property more, a last one called `name` with the base name and a NUL, on every node that has
none so called. -/
def withBaseNames (n : Node) : Node :=
  n.fold fun n below =>
    { n with
      properties := if n.properties.any (·.name == "name") then n.properties
        else n.properties ++ [⟨"name", Utf8.encode n.baseName ++ [0], none⟩]
      children := below }

theorem withBaseNames_eq (n : Node) :
    n.withBaseNames =
      { n with
        properties := if n.properties.any (·.name == "name") then n.properties
          else n.properties ++ [⟨"name", Utf8.encode n.baseName ++ [0], none⟩]
        children := n.children.map withBaseNames } :=
  fold_eq ..

/-- Every path below the node is the join of the path around it and the name. -/
def PathsFollow (n : Node) : Prop :=
  ∀ m ∈ n.preorder, ∀ c ∈ m.children, c.path = Path.join m.path c.name

instance (n : Node) : Decidable n.PathsFollow :=
  inferInstanceAs (Decidable (∀ m ∈ n.preorder, ∀ c ∈ m.children, c.path = Path.join m.path c.name))

theorem PathsFollow.child {n c : Node} (h : n.PathsFollow) (hc : c ∈ n.children) : c.PathsFollow :=
  fun m hm => h m (mem_preorder_of_child hc hm)

theorem PathsFollow.nul_notMem {n : Node} (h : n.PathsFollow)
    (hnames : ∀ m ∈ n.preorder, '\x00' ∉ m.name.toList) (hnul : '\x00' ∉ n.path.toList) :
    ∀ m ∈ n.preorder, '\x00' ∉ m.path.toList := by
  induction n using Node.induction with
  | step n ih =>
    intro m hm
    rcases mem_preorder_iff.1 hm with rfl | ⟨c, hc, hm⟩
    · exact hnul
    · have hnames' : ∀ m ∈ c.preorder, '\x00' ∉ m.name.toList := fun m hm => hnames m (mem_preorder_of_child hc hm)
      have hpath : '\x00' ∉ c.path.toList := by
        rw [h n n.mem_preorder_self c hc]
        intro hmem
        rcases Path.mem_join hmem with hmem | hmem | hmem
        · exact hnul hmem
        · exact absurd hmem (by decide)
        · exact hnames' c c.mem_preorder_self hmem
      exact ih c hc (h.child hc) hnames' hpath m hm

theorem PathsConsistent.child {n c : Node} (h : n.PathsConsistent) (hc : c ∈ n.children) : c.PathsConsistent :=
  ⟨⟨n.path, h.2 n n.mem_preorder_self c hc⟩, fun m hm => h.2 m (mem_preorder_of_child hc hm)⟩

theorem PathsConsistent.nul_notMem {n : Node} (h : n.PathsConsistent)
    (hnames : ∀ m ∈ n.preorder, '\x00' ∉ m.name.toList) (hnul : '\x00' ∉ n.path.toList) :
    ∀ m ∈ n.preorder, '\x00' ∉ m.path.toList :=
  PathsFollow.nul_notMem h.2 hnames hnul

/-- A tree whose paths are those of its place stays as it is when it is moved there. -/
theorem PathsFollow.placedUnder_self {n : Node} {parent : String} (h : n.PathsFollow)
    (hpath : n.path = Path.join parent n.name) : n.placedUnder parent = n := by
  induction n using Node.induction generalizing parent with
  | step n ih =>
    have hchildren : n.children.map (placedUnder · n.path) = n.children :=
      map_eq_self fun c hc => ih c hc (h.child hc) (h n n.mem_preorder_self c hc)
    rw [placedUnder_eq, ← hpath, hchildren, eta]

/-- Moving a tree to its place makes its paths consistent. -/
theorem pathsConsistent_placedUnder (n : Node) (parent : String) : (n.placedUnder parent).PathsConsistent := by
  induction n using Node.induction generalizing parent with
  | step n ih =>
    rw [placedUnder_eq]
    refine ⟨⟨parent, rfl⟩, fun m hm c hc => ?_⟩
    rcases mem_preorder_iff.1 hm with rfl | ⟨d, hd, hm⟩
    · obtain ⟨c', -, rfl⟩ := List.mem_map.1 hc
      rw [placedUnder_eq]
    · obtain ⟨d', hd', rfl⟩ := List.mem_map.1 hd
      exact (ih d' hd' _).2 m hm c hc

theorem pathsConsistent_named (name : String) : (named name).PathsConsistent := by
  refine ⟨⟨"/", rfl⟩, fun m hm c hc => ?_⟩
  rcases mem_preorder_iff.1 hm with rfl | ⟨d, hd, -⟩
  · exact absurd hc List.not_mem_nil
  · exact absurd hd List.not_mem_nil

/-- Attaching a tree to a node keeps the paths consistent. -/
theorem PathsConsistent.attach {n : Node} (h : n.PathsConsistent) (child : Node) :
    (n.attach child).PathsConsistent := by
  obtain ⟨hself, hbelow⟩ := h
  have hplaced := pathsConsistent_placedUnder child n.path
  refine ⟨hself, fun m hm c hc => ?_⟩
  rcases mem_preorder_iff.1 hm with rfl | ⟨d, hd, hm⟩
  · rcases List.mem_append.1 hc with hc | hc
    · exact hbelow n n.mem_preorder_self c hc
    · obtain rfl := List.mem_singleton.1 hc
      rw [placedUnder_eq]
      rfl
  · rcases List.mem_append.1 hd with hd | hd
    · exact hbelow m (mem_preorder_of_child hd hm) c hc
    · obtain rfl := List.mem_singleton.1 hd
      exact hplaced.2 m hm c hc

end Node

namespace BlockReader

open Structure

variable {r : BlockReader}

/-- Nodes are stored by their paths, and with their base names. -/
structure ByPaths (r : BlockReader) : Prop where
  fullPath : r.features.fullPath = true
  storedName : r.features.storedName = true

theorem ByPaths.storedProperties_eq (hr : r.ByPaths) (n : Node) :
    storedProperties r.features n =
      if n.properties.any (·.name == "name") then n.properties
      else n.properties ++ [⟨"name", Utf8.encode n.baseName ++ [0], none⟩] := by
  have hstores : storesName r.features n = !n.properties.any (·.name == "name") := by
    rw [storesName, hr.storedName, Bool.true_and, List.not_any_eq_all_not]
    rfl
  rw [storedProperties, hstores]
  cases n.properties.any (·.name == "name") with
  | true => exact List.append_nil _
  | false => rfl

theorem ByPaths.storedId_eq (hr : r.ByPaths) (n : Node) : storedId r.features n = n.path := by
  rw [storedId, if_pos hr.fullPath]

/-- A node whose path was joined from the one around it is read where that one bears it. -/
theorem ByPaths.nodeStoredAs_join (hr : r.ByPaths) {parent : String} {n : Node} (hparent : parent ≠ "")
    (hname : '/' ∉ n.name.toList) (hpath : n.path = Path.join parent n.name) :
    r.nodeStoredAs (some parent) n.path =
      if Path.Bears parent then some { name := n.name, path := n.path } else none := by
  unfold nodeStoredAs
  rw [if_pos hr.fullPath, hpath, Path.nameWithin?_join hparent hname]
  split <;> rfl

/-- What a node is read as whose path was joined from the one around it. -/
theorem ByPaths.readBack_join (hr : r.ByPaths) {parent : String} {n : Node} {depth : Nat} (hparent : parent ≠ "")
    (hname : '/' ∉ n.name.toList) (hpath : n.path = Path.join parent n.name) (hdepth : depth < maxNesting) :
    r.readBack n depth (some parent) =
      if Path.Bears parent then
        (n.children.mapM fun child => r.readBack child (depth + 1) (some n.path)) >>= fun children =>
          .ok (({ name := n.name, path := n.path } : Node).extend
            ((storedProperties r.features n).map Property.unlabelled) children)
      else .error (.pathMismatch n.path parent) := by
  rw [readBack_eq, if_neg (Nat.not_le.2 hdepth), hr.storedId_eq, hr.nodeStoredAs_join hparent hname hpath]
  by_cases hbears : Path.Bears parent
  · simp only [hbears, if_true]
    rfl
  · simp only [hbears, if_false]
    rfl

/-- What a node comes back as whose children do. -/
theorem ByPaths.extend_storedProperties (hr : r.ByPaths) (n : Node) :
    ({ name := n.name, path := n.path } : Node).extend ((storedProperties r.features n).map Property.unlabelled)
        (n.children.map fun c => c.withBaseNames.unlabelled) = n.withBaseNames.unlabelled := by
  rw [hr.storedProperties_eq, Node.withBaseNames_eq, Node.unlabelled_eq, List.map_map]
  rfl

/-- A tree that can be stored by its paths, as far as they go: the paths are consistent, no name has a slash, and
there are not too many levels in it. -/
structure Fit (n : Node) (depth : Nat) : Prop where
  paths : n.PathsConsistent
  names : ∀ m ∈ n.preorder, '/' ∉ m.name.toList
  levels : depth + n.height ≤ maxNesting

theorem Fit.child {n c : Node} {depth : Nat} (h : Fit n depth) (hc : c ∈ n.children) : Fit c (depth + 1) := by
  obtain ⟨k, hk⟩ : ∃ k, n.height = k + 1 := ⟨_, Node.height_eq n⟩
  have hlevel := Node.height_le_iff.1 (Nat.le_of_eq hk) c hc
  have hlevels := h.levels
  exact ⟨h.paths.child hc, fun m hm => h.names m (Node.mem_preorder_of_child hc hm), by omega⟩

theorem Fit.depth_lt {n : Node} {depth : Nat} (h : Fit n depth) : depth < maxNesting := by
  have hlevels := h.levels
  rw [Node.height_eq] at hlevels
  omega

theorem Fit.path_ne {n : Node} {depth : Nat} (h : Fit n depth) : n.path ≠ "" := by
  obtain ⟨around, haround⟩ := h.paths.1
  exact haround ▸ Path.join_ne_empty around n.name

/-- A child is read as its parent's path and what is below it have it. -/
theorem ByPaths.readBack_child (hr : r.ByPaths) {n c : Node} {depth : Nat} (h : Fit n depth) (hc : c ∈ n.children) :
    r.readBack c (depth + 1) (some n.path) =
      if Path.Bears n.path then
        (c.children.mapM fun child => r.readBack child (depth + 2) (some c.path)) >>= fun children =>
          .ok (({ name := c.name, path := c.path } : Node).extend
            ((storedProperties r.features c).map Property.unlabelled) children)
      else .error (.pathMismatch c.path n.path) :=
  hr.readBack_join h.path_ne ((h.child hc).names c c.mem_preorder_self) (h.paths.2 n n.mem_preorder_self c hc)
    (h.child hc).depth_lt

/-- Where every path with nodes below it bears them, they come back. -/
theorem ByPaths.below_of_bears (hr : r.ByPaths) (n : Node) :
    ∀ depth, Fit n depth → (∀ m ∈ n.preorder, Path.Bears m.path ∨ m.children = []) →
      (n.children.mapM fun child => r.readBack child (depth + 1) (some n.path)) =
        .ok (n.children.map fun c => c.withBaseNames.unlabelled) := by
  induction n using Node.induction with
  | step n ih =>
    intro depth hfit hbears
    refine mapM_eq_ok fun c hc => ?_
    have hself : Path.Bears n.path := (hbears n n.mem_preorder_self).resolve_right (List.ne_nil_of_mem hc)
    have hbelow := ih c hc (depth + 1) (hfit.child hc) fun m hm => hbears m (Node.mem_preorder_of_child hc hm)
    rw [hr.readBack_child hfit hc, if_pos hself, hbelow, ← hr.extend_storedProperties]
    rfl

/-- Where a path does not bear the nodes below it, the reading ends in a mismatch. -/
theorem ByPaths.below_of_not_bears (hr : r.ByPaths) (n : Node) :
    ∀ depth, Fit n depth → (∃ m ∈ n.preorder, ¬Path.Bears m.path ∧ m.children ≠ []) →
      ∃ e, (∃ path parent, e = Fault.pathMismatch path parent) ∧
        (n.children.mapM fun child => r.readBack child (depth + 1) (some n.path)) = .error e := by
  induction n using Node.induction with
  | step n ih =>
    intro depth hfit hbad
    obtain ⟨m, hm, hnot, hne⟩ := hbad
    by_cases hself : Path.Bears n.path
    · -- the bad path is below one of the children, and the others come back or fail in the same way
      have hchild : ∀ c ∈ n.children, (∃ m ∈ c.preorder, ¬Path.Bears m.path ∧ m.children ≠ []) →
          ∃ e, (∃ path parent, e = Fault.pathMismatch path parent) ∧
            r.readBack c (depth + 1) (some n.path) = .error e := by
        intro c hc hbad
        obtain ⟨e, he, hbelow⟩ := ih c hc (depth + 1) (hfit.child hc) hbad
        refine ⟨e, he, ?_⟩
        rw [hr.readBack_child hfit hc, if_pos hself, hbelow]
        rfl
      have heach : ∀ c ∈ n.children,
          r.readBack c (depth + 1) (some n.path) = .ok c.withBaseNames.unlabelled ∨
            ∃ e, (∃ path parent, e = Fault.pathMismatch path parent) ∧
              r.readBack c (depth + 1) (some n.path) = .error e := by
        intro c hc
        by_cases hbad : ∃ m ∈ c.preorder, ¬Path.Bears m.path ∧ m.children ≠ []
        · exact .inr (hchild c hc hbad)
        · have hbears : ∀ m ∈ c.preorder, Path.Bears m.path ∨ m.children = [] := fun m hm =>
            Decidable.or_iff_not_imp_left.2 fun hnot =>
              Decidable.by_contra fun hne => hbad ⟨m, hm, hnot, hne⟩
          refine .inl ?_
          rw [hr.readBack_child hfit hc, if_pos hself, hr.below_of_bears c _ (hfit.child hc) hbears,
            ← hr.extend_storedProperties]
          rfl
      rcases Node.mem_preorder_iff.1 hm with rfl | ⟨c, hc, hm⟩
      · exact absurd hself hnot
      · obtain ⟨e, -, he⟩ := hchild c hc ⟨m, hm, hnot, hne⟩
        exact mapM_eq_error heach ⟨c, hc, e, he⟩
    · have heach : ∀ c ∈ n.children,
          r.readBack c (depth + 1) (some n.path) = .error (.pathMismatch c.path n.path) := fun c hc => by
        rw [hr.readBack_child hfit hc, if_neg hself]
      have hsome : n.children ≠ [] := by
        rcases Node.mem_preorder_iff.1 hm with rfl | ⟨c, hc, -⟩
        · exact hne
        · exact List.ne_nil_of_mem hc
      obtain ⟨c, hc⟩ := List.exists_mem_of_ne_nil _ hsome
      exact mapM_eq_error (g := id) (fun c hc => .inr ⟨_, ⟨_, _, rfl⟩, heach c hc⟩) ⟨c, hc, _, heach c hc⟩

/-- What the root of a tree is read as. -/
theorem ByPaths.readBack_root (hr : r.ByPaths) {n : Node} (h : Fit n 0) :
    r.readBack n 0 none =
      if n.path = "/" then
        (n.children.mapM fun child => r.readBack child 1 (some n.path)) >>= fun children =>
          .ok (({ name := n.name, path := n.path } : Node).extend
            ((storedProperties r.features n).map Property.unlabelled) children)
      else .error (.pathMismatch n.path "") := by
  rw [readBack_eq, if_neg (by decide), hr.storedId_eq]
  by_cases hpath : n.path = "/"
  · obtain ⟨around, haround⟩ := h.paths.1
    have hname : n.name = "" := Path.name_eq_empty_of_join (haround.symm.trans hpath)
    have hstored : r.nodeStoredAs none n.path = some { name := n.name, path := n.path } := by
      rw [nodeStoredAs, if_pos hr.fullPath, hpath, hname]
      rfl
    rw [hstored, if_pos hpath]
    rfl
  · have hstored : r.nodeStoredAs none n.path = none := by
      rw [nodeStoredAs, if_pos hr.fullPath, Path.nameWithin?, if_neg hpath]
      rfl
    rw [hstored, if_neg hpath]
    rfl

/-- A tree comes back just when its root is called by a slash and every path with nodes below it bears them.
Otherwise the reading ends in a mismatch. -/
theorem ByPaths.readBack_of_fit (hr : r.ByPaths) {n : Node} (h : Fit n 0) :
    (n.path = "/" ∧ (∀ m ∈ n.preorder, Path.Bears m.path ∨ m.children = []) ∧
      r.readBack n 0 none = .ok n.withBaseNames.unlabelled) ∨
    (¬(n.path = "/" ∧ ∀ m ∈ n.preorder, Path.Bears m.path ∨ m.children = []) ∧
      ∃ path parent, r.readBack n 0 none = .error (.pathMismatch path parent)) := by
  rw [hr.readBack_root h]
  by_cases hpath : n.path = "/"
  · by_cases hbad : ∃ m ∈ n.preorder, ¬Path.Bears m.path ∧ m.children ≠ []
    · obtain ⟨_, ⟨path, parent, rfl⟩, hbelow⟩ := hr.below_of_not_bears n 0 h hbad
      refine .inr ⟨fun hgood => ?_, path, parent, ?_⟩
      · obtain ⟨m, hm, hnot, hne⟩ := hbad
        exact (hgood.2 m hm).elim hnot hne
      · rw [if_pos hpath, hbelow]
        rfl
    · have hbears : ∀ m ∈ n.preorder, Path.Bears m.path ∨ m.children = [] := fun m hm =>
        Decidable.or_iff_not_imp_left.2 fun hnot =>
          Decidable.by_contra fun hne => hbad ⟨m, hm, hnot, hne⟩
      refine .inl ⟨hpath, hbears, ?_⟩
      rw [if_pos hpath, hr.below_of_bears n 0 h hbears, ← hr.extend_storedProperties]
      rfl
  · refine .inr ⟨fun hgood => hpath hgood.1, n.path, "", ?_⟩
    rw [if_neg hpath]

end BlockReader

namespace BootInfo

/-- Versions 1, 2 and 3, for a tree with consistent paths: a blob that is written can be read just when the root's
path is a slash and no other path that ends in a slash has nodes below it. It is read as what it was written from,
without labels and with a property for the base name on every node that had none; or else there is a mismatch of
paths. -/
theorem round_trip_by_paths {info : BootInfo} {s : Settings} {b : Bytes} (hs : s.version ∈ [1, 2, 3])
    (hb : (info.toBlob s).result = .ok b) (hheight : info.root.height ≤ maxNesting)
    (hpaths : info.root.PathsConsistent) (hnul : '\x00' ∉ info.root.path.toList) :
    ((∃ back, (ofBlob b).result = .ok back) ↔
      info.root.path = "/" ∧ ∀ m ∈ info.root.preorder,
        m.path.toList.getLast? = some '/' → m.path ≠ "/" → m.children = []) ∧
    (∀ back, (ofBlob b).result = .ok back → back = { info with root := info.root.withBaseNames.unlabelled }) ∧
    (∀ e, (ofBlob b).result = .error e → ∃ path parent, e.fault = .pathMismatch path parent) := by
  obtain ⟨v, hv, hwritable, hfit, rfl⟩ := toBlob_eq_ok_iff.1 hb
  have hfeatures : v.features.fullPath = true ∧ v.features.storedName = true := by
    rw [← Version.number_of_ofNumber? hv] at hs
    cases v with
    | v1 => exact ⟨rfl, rfl⟩
    | v2 => exact ⟨rfl, rfl⟩
    | v3 => exact ⟨rfl, rfl⟩
    | v16 => exact absurd hs (by decide)
  have hids : ∀ n ∈ info.root.preorder, '\x00' ∉ (Structure.storedId v.features n).toList := fun n hn => by
    rw [Structure.storedId, if_pos hfeatures.1]
    exact hpaths.nul_notMem (fun m hm => (hwritable.names m hm).1) hnul n hn
  obtain ⟨r, hr, hread⟩ := ofBlob_blobBytes hwritable hfit s.blobCpuid hids
  have hbypaths : r.ByPaths := ⟨hr ▸ hfeatures.1, hr ▸ hfeatures.2⟩
  have hroot : BlockReader.Fit info.root 0 := ⟨hpaths, fun m hm => (hwritable.names m hm).2, by omega⟩
  have hbears (m : Node) : (m.path.toList.getLast? = some '/' → m.path ≠ "/" → m.children = []) ↔
      Path.Bears m.path ∨ m.children = [] := by
    unfold Path.Bears
    rw [Decidable.or_iff_not_imp_left]
    exact ⟨fun h hnot => h (Decidable.not_imp_iff_and_not.1 hnot).1 (Decidable.not_imp_iff_and_not.1 hnot).2,
      fun h hlast hne => h fun h' => hne (h' hlast)⟩
  simp only [hbears]
  rcases hbypaths.readBack_of_fit hroot with ⟨hpath, hgood, hback⟩ | ⟨hbad, path, parent, hback⟩
  · rw [hback] at hread
    rw [faultOnly_eq_ok_iff.1 hread]
    refine ⟨⟨fun _ => ⟨hpath, hgood⟩, fun _ => ⟨_, rfl⟩⟩, fun back h => (Except.ok.inj h).symm, fun e h => ?_⟩
    cases h
  · rw [hback] at hread
    obtain ⟨offset, herror⟩ := faultOnly_eq_error_iff.1 hread
    rw [herror]
    refine ⟨⟨fun hread => ?_, fun hgood => absurd hgood hbad⟩, fun back h => ?_, fun e h => ?_⟩
    · obtain ⟨back, h⟩ := hread
      cases h
    · cases h
    obtain rfl := Except.error.inj h
    exact ⟨path, parent, rfl⟩

theorem round_trip_by_paths_sample :
    ∃ b, (sample.toBlob { version := 3 }).result = .ok b ∧
      (ofBlob b).result = .ok { sample with root := sample.root.withBaseNames.unlabelled } := by
  obtain ⟨b, hb⟩ : ∃ b, (sample.toBlob { version := 3 }).result = .ok b := ⟨_, rfl⟩
  have hpaths : sample.root.PathsConsistent := ⟨⟨"/", by decide⟩, by decide⟩
  have hround := round_trip_by_paths (by decide) hb (by decide) hpaths (by decide)
  obtain ⟨back, hback⟩ := hround.1.2 (by decide)
  obtain rfl := hround.2.1 back hback
  exact ⟨b, hb, hback⟩

end BootInfo

end DeviceTree
