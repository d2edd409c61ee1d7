import DeviceTree.Proofs.Reencoding
import Mathlib.Data.List.TakeDrop
import Mathlib.Data.List.TakeWhile

/-!
# Trees that are built

`Node.Built` holds of every tree that can be made out of new nodes by labels, properties, attached trees and
copies. Whatever is done, at the root or at the end of a walk (`Node.Walk`), every path below the root stays the one
that is worked out from the path around it (`Built.pathsConsistent`); the root's own path is that of the place where the
tree was last attached or copied from.

* `built_round_trip`: what such a tree is read as once it has been written. From version 16 on it comes back.
  Before, it does just when its root has a slash as its path and no other path that ends in a slash has nodes below
  it: the checks before writing look at names only.
-/

namespace DeviceTree

namespace Node

/-! ## Walks -/

/-- A walk from a node along children's names, at each name to the first child so called. `around` is the whole tree with
another node in the place of the last one. -/
inductive Walk : Node → List String → Node → (Node → Node) → Prop where
  | here (n : Node) : Walk n [] n id
  | child {n child m : Node} {before after : List Node} {names : List String} {around : Node → Node}
    (hchildren : n.children = before ++ child :: after) (hfirst : ∀ c ∈ before, c.name ≠ child.name)
    (h : Walk child names m around) :
    Walk n (child.name :: names) m fun k => { n with children := before ++ around k :: after }

/-- Cutting before the first node of a name. -/
theorem span_name_eq_iff {l before after : List Node} {child : Node} {name : String} :
    l.span (·.name != name) = (before, child :: after) ↔
      l = before ++ child :: after ∧ (∀ c ∈ before, c.name ≠ name) ∧ child.name = name := by
  rw [List.span_eq_takeWhile_dropWhile]
  refine ⟨fun h => ?_, fun h => ?_⟩
  · obtain ⟨hbefore, hafter⟩ := Prod.mk.inj h
    have hfind : l.find? (fun c => !(c.name != name)) = some child := by
      rw [List.find?_not_eq_head?_dropWhile, hafter]
      rfl
    refine ⟨?_, fun c hc => ?_, ?_⟩
    · rw [← hbefore, ← hafter, List.takeWhile_append_dropWhile]
    · rw [← hbefore] at hc
      have hskip := List.mem_takeWhile_imp hc
      exact bne_iff_ne.1 hskip
    · simpa using List.find?_some hfind
  · obtain ⟨rfl, hbefore, hname⟩ := h
    have hskip : ∀ c ∈ before, (c.name != name) = true := fun c hc => bne_iff_ne.2 (hbefore c hc)
    rw [List.takeWhile_append_of_pos hskip, List.dropWhile_append_of_pos hskip]
    simp [hname]

variable {n m : Node} {names : List String} {around : Node → Node}

theorem Walk.around_self (h : Walk n names m around) : around m = n := by
  induction h with
  | here n => rfl
  | child hchildren _ _ ih =>
    dsimp only
    rw [ih, ← hchildren, eta]

theorem Walk.mem_preorder (h : Walk n names m around) : m ∈ n.preorder := by
  induction h with
  | here n => exact n.mem_preorder_self
  | child hchildren _ _ ih => exact mem_preorder_of_child (by rw [hchildren]; simp) ih

/-- The change of a node at the end of a walk is one of the whole tree. -/
theorem Walk.modifyAt (h : Walk n names m around) (f : Node → Node) : n.modifyAt f names = .ok (around (f m)) := by
  induction h with
  | here n => rfl
  | @child n child m before after names around hchildren hfirst h ih =>
    unfold Node.modifyAt
    rw [span_name_eq_iff.2 ⟨hchildren, hfirst, rfl⟩]
    dsimp only
    rw [ih]
    rfl

theorem walk_of_descend (h : n.descend names = .ok m) : ∃ around, Walk n names m around := by
  induction names generalizing n with
  | nil =>
    obtain rfl := Except.ok.inj h
    exact ⟨id, .here n⟩
  | cons name names ih =>
    unfold descend at h
    split at h
    · rename_i child hchild
      obtain ⟨hname, before, after, hchildren, hbefore⟩ := List.find?_eq_some_iff_append.1 hchild
      obtain rfl : child.name = name := beq_iff_eq.1 hname
      obtain ⟨around, hwalk⟩ := ih h
      exact ⟨_, .child hchildren (fun c hc => by simpa using hbefore c hc) hwalk⟩
    · cases h

theorem walk_of_modifyAt {f : Node → Node} {n' : Node} (h : n.modifyAt f names = .ok n') :
    ∃ m around, Walk n names m around ∧ n' = around (f m) := by
  induction names generalizing n n' with
  | nil => exact ⟨n, id, .here n, (Except.ok.inj h).symm⟩
  | cons name names ih =>
    unfold Node.modifyAt at h
    split at h
    · rename_i before child after hspan
      obtain ⟨hchildren, hfirst, rfl⟩ := span_name_eq_iff.1 hspan
      cases hat : child.modifyAt f names with
      | error _ =>
        rw [hat] at h
        cases h
      | ok child' =>
        rw [hat] at h
        obtain ⟨m, around, hwalk, rfl⟩ := ih hat
        exact ⟨m, _, .child hchildren hfirst hwalk, (Except.ok.inj h).symm⟩
    · cases h

/-! ## Trees that can be made -/

/-- The trees that can be made. A step is done to the node that a walk along children's names leads to. -/
inductive Built : Node → Prop where
  /-- A new node. -/
  | named (name : String) : Built (named name)
  /-- A node is labelled. -/
  | label {n n' : Node} (names : List String) (label : String) (hn : Built n)
    (h : n.modifyAt (fun m => { m with label := some label }) names = .ok n') : Built n'
  /-- A node is given a property more. -/
  | addProperty {n n' : Node} (names : List String) (p : Property) (hn : Built n)
    (h : n.modifyAt (·.addProperty p) names = .ok n') : Built n'
  /-- A tree is attached to a node. -/
  | attach {n n' child : Node} (names : List String) (hn : Built n) (hchild : Built child)
    (h : n.modifyAt (·.attach child) names = .ok n') : Built n'
  /-- A node of a tree is copied, with all nodes below it. -/
  | copy {n m : Node} (hn : Built n) (hm : m ∈ n.preorder) : Built m

theorem pathsConsistent_iff {n : Node} :
    n.PathsConsistent ↔ (∃ parent, n.path = Path.join parent n.name) ∧
      ∀ c ∈ n.children, c.path = Path.join n.path c.name ∧ c.PathsConsistent := by
  refine ⟨fun h => ⟨h.1, fun c hc => ⟨h.2 n n.mem_preorder_self c hc, h.child hc⟩⟩, fun h => ?_⟩
  refine ⟨h.1, fun m hm c hc => ?_⟩
  rcases mem_preorder_iff.1 hm with rfl | ⟨d, hd, hm⟩
  · exact (h.2 c hc).1
  · exact (h.2 d hd).2.2 m hm c hc

theorem PathsConsistent.of_mem_preorder {n m : Node} (h : n.PathsConsistent) (hm : m ∈ n.preorder) :
    m.PathsConsistent := by
  induction n using Node.induction with
  | step n ih =>
    rcases mem_preorder_iff.1 hm with rfl | ⟨c, hc, hm⟩
    · exact h
    · exact ih c hc (h.child hc) hm

/-- A change to a node that keeps its name, its path and the paths below it in step. -/
structure KeepsPaths (f : Node → Node) : Prop where
  name (n : Node) : (f n).name = n.name
  path (n : Node) : (f n).path = n.path
  consistent (n : Node) : n.PathsConsistent → (f n).PathsConsistent

/-- Such a change at the end of a walk is one of the whole tree. -/
theorem KeepsPaths.walk {f : Node → Node} (hf : KeepsPaths f) (h : Walk n names m around) (hn : n.PathsConsistent) :
    (around (f m)).name = n.name ∧ (around (f m)).path = n.path ∧ (around (f m)).PathsConsistent := by
  induction h with
  | here n => exact ⟨hf.name n, hf.path n, hf.consistent n hn⟩
  | @child n child m before after names around hchildren _ _ ih =>
    obtain ⟨hpath, hbelow⟩ := pathsConsistent_iff.1 hn
    rw [hchildren] at hbelow
    obtain ⟨hchild, hconsistent⟩ := hbelow child (by simp)
    obtain ⟨hname', hpath', hchild'⟩ := ih hconsistent
    refine ⟨rfl, rfl, pathsConsistent_iff.2 ⟨hpath, fun c hc => ?_⟩⟩
    rcases List.mem_append.1 hc with hc | hc
    · exact hbelow c (List.mem_append_left _ hc)
    rcases List.mem_cons.1 hc with rfl | hc
    · exact ⟨by rw [hpath', hname', hchild], hchild'⟩
    · exact hbelow c (List.mem_append_right _ (List.mem_cons_of_mem _ hc))

theorem KeepsPaths.modifyAt {f : Node → Node} (hf : KeepsPaths f) {n' : Node} (h : n.modifyAt f names = .ok n')
    (hn : n.PathsConsistent) : n'.PathsConsistent := by
  obtain ⟨m, around, hwalk, rfl⟩ := walk_of_modifyAt h
  exact (hf.walk hwalk hn).2.2

theorem keepsPaths_label (label : String) : KeepsPaths fun n => { n with label := some label } where
  name _ := rfl
  path _ := rfl
  consistent n h := by
    rw [pathsConsistent_iff] at h ⊢
    exact h

theorem keepsPaths_addProperty (p : Property) : KeepsPaths (·.addProperty p) where
  name _ := rfl
  path _ := rfl
  consistent n h := by
    rw [pathsConsistent_iff] at h ⊢
    exact h

theorem keepsPaths_attach (child : Node) : KeepsPaths (·.attach child) where
  name _ := rfl
  path _ := rfl
  consistent _ h := h.attach child

/-- What is built has consistent paths. -/
theorem Built.pathsConsistent {n : Node} (h : n.Built) : n.PathsConsistent := by
  induction h with
  | named name => exact pathsConsistent_named name
  | label names label _ h ih => exact (keepsPaths_label label).modifyAt h ih
  | addProperty names p _ h ih => exact (keepsPaths_addProperty p).modifyAt h ih
  | attach names _ _ h ih => exact (keepsPaths_attach _).modifyAt h ih
  | copy _ hm ih => exact ih.of_mem_preorder hm

theorem path_unlabelled_withBaseNames (n : Node) : n.withBaseNames.unlabelled.path = n.path := by
  rw [withBaseNames_eq, Node.unlabelled_eq]

end Node

namespace BootInfo

open BlockReader (Fit)

variable {info : BootInfo} {v : Version}

theorem version_blobBytes (hfit : info.SizesFit v) (bootCpuid : UInt32) :
    Header.fieldAt (info.blobBytes v bootCpuid) .version = .ok v.number :=
  Header.fieldAt_eq_ok_iff.2 (isHeader_blobBytes bootCpuid hfit).version

theorem root_path_of_paths {back : BootInfo} (hfit : info.SizesFit v) (hv : v ≠ .v16) (bootCpuid : UInt32)
    (hread : (ofBlob (info.blobBytes v bootCpuid)).result = .ok back) : back.root.path = "/" := by
  obtain ⟨_, -, hstored⟩ := (ofBlob_held hread (version_blobBytes hfit bootCpuid)).root.stored
  unfold Format.StoredAs at hstored
  rw [if_pos (Version.number_lt_of_ne hv)] at hstored
  obtain ⟨hpath, hid, -⟩ := hstored
  rw [hpath, hid]

/-- A tree with consistent paths is read by its paths just when they can all be followed. -/
theorem ofBlob_of_fit (hwritable : info.Writable) (hfit : info.SizesFit v) (hv : v ≠ .v16) (hroot : Fit info.root 0)
    (hnul : '\x00' ∉ info.root.path.toList) (bootCpuid : UInt32) :
    ((info.root.path = "/" ∧ ∀ m ∈ info.root.preorder, Path.Bears m.path ∨ m.children = []) ∧
        (ofBlob (info.blobBytes v bootCpuid)).result = .ok { info with root := info.root.withBaseNames.unlabelled }) ∨
      (¬(info.root.path = "/" ∧ ∀ m ∈ info.root.preorder, Path.Bears m.path ∨ m.children = []) ∧
        ∃ path parent offset,
          (ofBlob (info.blobBytes v bootCpuid)).result = .error ⟨.pathMismatch path parent, offset⟩) := by
  have hpaths := hroot.paths.nul_notMem (fun m hm => (hwritable.names m hm).1) hnul
  obtain ⟨r, hr, hread⟩ := ofBlob_blobBytes_of_paths hwritable hfit hv hpaths bootCpuid
  rcases hr.readBack_of_fit hroot with ⟨hpath, hbears, hback⟩ | ⟨hbad, path, parent, hback⟩
  · rw [hback] at hread
    exact .inl ⟨⟨hpath, hbears⟩, faultOnly_eq_ok_iff.1 hread⟩
  · rw [hback] at hread
    obtain ⟨offset, herror⟩ := faultOnly_eq_error_iff.1 hread
    exact .inr ⟨hbad, path, parent, offset, herror⟩

/-- A tree that was built and written in version 16 comes back. Written before version 16, it comes back just when
its root has a slash as its path and every path with nodes below it bears them; otherwise there is a mismatch of
paths, as far as no NUL cuts the paths short. -/
theorem built_round_trip {s : Settings} {b : Bytes} (hbuilt : info.root.Built)
    (hheight : info.root.height ≤ maxNesting) (hb : (info.toBlob s).result = .ok b) :
    (s.version = 16 → (ofBlob b).result = .ok { info with root := info.root.unlabelled.placedUnder "/" }) ∧
    (s.version ≠ 16 →
      ((ofBlob b).result = .ok { info with root := info.root.withBaseNames.unlabelled } ↔
        info.root.path = "/" ∧ ∀ m ∈ info.root.preorder, Path.Bears m.path ∨ m.children = []) ∧
      ('\x00' ∉ info.root.path.toList →
        ¬(info.root.path = "/" ∧ ∀ m ∈ info.root.preorder, Path.Bears m.path ∨ m.children = []) →
          ∃ path parent offset, (ofBlob b).result = .error ⟨.pathMismatch path parent, offset⟩)) := by
  obtain ⟨v, hv, hwritable, hfit, rfl⟩ := toBlob_eq_ok_iff.1 hb
  refine ⟨fun heq => ?_, fun hne => ?_⟩
  · obtain rfl := (Version.eq_v16_iff hv).2 heq
    exact ofBlob_blobBytes_of_names hwritable hfit hheight s.blobCpuid
  have hv' : v ≠ .v16 := fun heq => hne ((Version.eq_v16_iff hv).1 heq)
  have hroot : Fit info.root 0 := ⟨hbuilt.pathsConsistent, fun m hm => (hwritable.names m hm).2, by omega⟩
  refine ⟨⟨fun hread => ?_, fun hgood => ?_⟩, fun hnul hbad => ?_⟩
  · -- a root that is read has a path without a NUL, so the paths of the tree decide
    have hpath : info.root.path = "/" := by
      have := root_path_of_paths hfit hv' s.blobCpuid hread
      rwa [Node.path_unlabelled_withBaseNames] at this
    have hnul : '\x00' ∉ info.root.path.toList := by
      rw [hpath]
      decide
    rcases ofBlob_of_fit hwritable hfit hv' hroot hnul s.blobCpuid with ⟨hgood, -⟩ | ⟨-, _, _, _, herror⟩
    · exact hgood
    · rw [hread] at herror
      cases herror
  · have hnul : '\x00' ∉ info.root.path.toList := by
      rw [hgood.1]
      decide
    exact ((ofBlob_of_fit hwritable hfit hv' hroot hnul s.blobCpuid).resolve_right fun h => h.1 hgood).2
  · exact ((ofBlob_of_fit hwritable hfit hv' hroot hnul s.blobCpuid).resolve_left fun h => hbad h.1).2

/-- A root with a node that was attached to another one first. -/
def attachedTwice : BootInfo where
  root := (Node.named "").attach ((Node.named "cpus").attach (.named "cpu@0"))

theorem built_round_trip_attachedTwice :
    ∃ b, (attachedTwice.toBlob { version := 1 }).result = .ok b ∧
      (ofBlob b).result = .ok { attachedTwice with root := attachedTwice.root.withBaseNames.unlabelled } := by
  have hbuilt : attachedTwice.root.Built :=
    .attach [] (.named "") (.attach [] (.named "cpus") (.named "cpu@0") rfl) rfl
  obtain ⟨b, hb⟩ : ∃ b, (attachedTwice.toBlob { version := 1 }).result = .ok b := ⟨_, rfl⟩
  exact ⟨b, hb, ((built_round_trip hbuilt (by decide) hb).2 (by decide)).1.2 (by decide)⟩

/-- A node that is inside the root by its path, as the root of a tree. -/
def detachedRoot : BootInfo where
  root := (Node.named "cpu@0").addProperty ⟨"name", [99, 112, 117, 0], none⟩

/-- A blob is written that cannot be read. -/
theorem built_written_not_read :
    detachedRoot.root.Built ∧ detachedRoot.root.height ≤ maxNesting ∧
      ∃ b, (detachedRoot.toBlob { version := 1 }).result = .ok b ∧
        (ofBlob b).result = .error ⟨.pathMismatch "/cpu@0" "", 52⟩ := by
  refine ⟨.addProperty [] _ (.named "cpu@0") rfl, by decide, ?_⟩
  obtain ⟨b, hb⟩ : ∃ b, (detachedRoot.toBlob { version := 1 }).result = .ok b := ⟨_, rfl⟩
  have hread : (detachedRoot.toBlob { version := 1 }).result.toOption.map (fun b => (ofBlob b).result) =
      some (.error ⟨.pathMismatch "/cpu@0" "", 52⟩) := by decide +kernel
  rw [hb] at hread
  exact ⟨b, hb, Option.some.inj hread⟩

end BootInfo

end DeviceTree
