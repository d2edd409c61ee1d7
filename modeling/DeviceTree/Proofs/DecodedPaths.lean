import DeviceTree.Proofs.Decoded
import Mathlib.Control.Monad.Basic

/-!
# Paths of trees that are read

From version 16 on, the path of a node is worked out while it is read. Before, it is stored, and is only seen to
hang off the one around it. It then is the one that would be worked out, except behind a path that ends in a
slash: there a stored path may have a second one (`StoredAs.path_eq_join`). So a stored tree has the paths that
would be worked out just when none of them has two slashes in a row (`Held.paths_iff`).

* `ofBlob_paths_iff`: the same for whole blobs.
-/

namespace DeviceTree

/-- Two slashes in a row, the second one behind `l`, are in `l`. -/
theorem doubled_of_append {l r : List Char} (hr : '/' ∉ r) (h : ['/', '/'] <:+: l ++ r) : ['/', '/'] <:+: l := by
  obtain ⟨before, after, h⟩ := h
  rcases List.append_eq_append_iff.1 h with ⟨x, hl, -⟩ | ⟨y, hy, hafter⟩
  · exact ⟨before, x, hl.symm⟩
  · rcases List.eq_nil_or_concat y with rfl | ⟨y, c, rfl⟩
    · exact ⟨before, [], by simpa using hy⟩
    · -- what is left of the slashes would be in `r`
      rw [List.concat_eq_append] at hy hafter
      have hlast : (before ++ ['/', '/']).getLast? = (l ++ (y ++ [c])).getLast? := by rw [hy]
      have hc : c = '/' := by simpa using hlast.symm
      exact absurd (by rw [hafter, hc]; simp) hr

namespace Path

/-- The path has two slashes in a row. -/
def Doubled (path : String) : Prop :=
  ['/', '/'] <:+: path.toList

instance (path : String) : Decidable (Doubled path) :=
  inferInstanceAs (Decidable (_ <:+: _))

theorem not_doubled_join {parent name : String} (hparent : ¬Doubled parent) (hname : '/' ∉ name.toList) :
    ¬Doubled (join parent name) := by
  intro h
  by_cases hslash : parent.toList.getLast? = some '/'
  · rw [join_of_slash hslash, Doubled, String.toList_append] at h
    exact hparent (doubled_of_append hname h)
  · rw [join_of_no_slash hslash, Doubled, String.toList_append, String.toList_append] at h
    obtain ⟨before, after, h⟩ := doubled_of_append hname h
    rcases List.eq_nil_or_concat after with rfl | ⟨after, c, rfl⟩
    · -- the second slash is the one that was joined, so the first one ends the parent
      have hsplit : before ++ ['/'] ++ ['/'] = parent.toList ++ ['/'] := by simpa using h
      refine hslash ?_
      rw [← List.append_cancel_right hsplit]
      simp
    · have hsplit : before ++ ['/', '/'] ++ after ++ [c] = parent.toList ++ ['/'] := by simpa using h
      exact hparent ⟨before, after, (List.append_inj' hsplit rfl).1⟩

end Path

namespace Format.StoredAs

variable {version : UInt32} {parent id name path : String}

theorem root_path (h : StoredAs version none id name path) : path = Path.join "/" name := by
  unfold StoredAs at h
  split at h
  · obtain ⟨rfl, rfl, rfl⟩ := h
    decide
  · obtain ⟨rfl, rfl⟩ := h
    rfl

theorem path_of_names (hversion : 16 ≤ version) (h : StoredAs version (some parent) id name path) :
    path = Path.join parent name := by
  unfold StoredAs at h
  rw [if_neg (UInt32.not_lt.2 hversion)] at h
  rw [h.2, h.1]
  rfl

theorem slash_notMem {parent : Option String} (hversion : version < 16) (h : StoredAs version parent id name path) :
    '/' ∉ name.toList := by
  unfold StoredAs at h
  rw [if_pos hversion] at h
  cases parent with
  | none =>
    rw [h.2.2]
    decide
  | some parent => exact h.2.1

/-- A stored path without two slashes in a row is the one that would be worked out. -/
theorem path_eq_join (h : StoredAs version (some parent) id name path) (hpath : ¬Path.Doubled path) :
    path = Path.join parent name := by
  by_cases hversion : version < 16
  · unfold StoredAs at h
    rw [if_pos hversion] at h
    obtain ⟨rfl, -, dir, rfl, hdir⟩ := h
    split at hdir
    · rename_i hempty
      rw [hempty, ← hdir, Path.join_of_slash (by decide), String.empty_append]
    · subst hdir
      have hslash : dir.toList.getLast? ≠ some '/' := fun hslash => by
        obtain ⟨front, hfront⟩ := List.getLast?_eq_some_iff.1 hslash
        exact hpath ⟨front, name.toList, by simp [hfront]⟩
      exact (Path.join_of_no_slash hslash name).symm
  · exact h.path_of_names (UInt32.not_lt.1 hversion)

end Format.StoredAs

namespace Node

variable {version : UInt32} {parent : Option String} {n : Node}

/-- Where every path is the one that would be worked out, none has two slashes in a row. -/
theorem Held.not_doubled (hversion : version < 16) (h : n.Held version parent) (hpath : ¬Path.Doubled n.path)
    (hjoin : ∀ m ∈ n.preorder, ∀ c ∈ m.children, c.path = Path.join m.path c.name) :
    ∀ m ∈ n.preorder, ¬Path.Doubled m.path := by
  induction n using Node.induction generalizing parent with
  | step n ih =>
    intro m hm
    rcases mem_preorder_iff.1 hm with rfl | ⟨c, hc, hm⟩
    · exact hpath
    · have hchild := h.child hc
      obtain ⟨_, -, hstored⟩ := hchild.stored
      have hc' : ¬Path.Doubled c.path := by
        rw [hjoin n n.mem_preorder_self c hc]
        exact Path.not_doubled_join hpath (hstored.slash_notMem hversion)
      exact ih c hc hchild hc' (fun m hm => hjoin m (mem_preorder_of_child hc hm)) m hm

/-- A stored tree has the paths that would be worked out just when none has two slashes in a row. -/
theorem Held.paths_iff (h : n.Held version none) :
    n.path = Path.join "/" n.name ∧
      ((∀ m ∈ n.preorder, ∀ c ∈ m.children, c.path = Path.join m.path c.name) ↔
        16 ≤ version ∨ ∀ m ∈ n.preorder, ¬Path.Doubled m.path) := by
  obtain ⟨_, -, hroot⟩ := h.stored
  refine ⟨hroot.root_path, fun hjoin => ?_, fun hgood m hm c hc => ?_⟩
  · by_cases hversion : version < 16
    · refine .inr (h.not_doubled hversion ?_ hjoin)
      rw [hroot.root_path]
      exact Path.not_doubled_join (by decide) (hroot.slash_notMem hversion)
    · exact .inl (UInt32.not_lt.1 hversion)
  · obtain ⟨_, -, hstored⟩ := h.below m hm c hc
    rcases hgood with hversion | hpaths
    · exact hstored.path_of_names hversion
    · refine hstored.path_eq_join (hpaths c ?_)
      exact mem_preorder_trans hm (mem_preorder_of_child hc c.mem_preorder_self)

end Node

namespace BootInfo

/-- The root of a tree that is read has the path that would be worked out for it. So have all other nodes just when
the version is 16 or later or no path has two slashes in a row. -/
theorem ofBlob_paths_iff {bytes : Bytes} {info : BootInfo} {version : UInt32}
    (hread : (ofBlob bytes).result = .ok info) (hversion : Header.fieldAt bytes .version = .ok version) :
    info.root.path = Path.join "/" info.root.name ∧
      ((∀ m ∈ info.root.preorder, ∀ c ∈ m.children, c.path = Path.join m.path c.name) ↔
        16 ≤ version ∨ ∀ m ∈ info.root.preorder, ¬Path.Doubled m.path) :=
  (ofBlob_held hread hversion).root.paths_iff

/-- A blob of version 1 with one node inside the root, stored as a text of three bytes. -/
def blobWithChild (id : String) : Bytes :=
  [0xD00DFEED, 76, 48, 76, 32, 1, 1, 0, 0, 0, 0, 0, 1, 0x2F000000, 1].flatMap BigEndian.word32 ++
    Utf8.encode id ++ 0 :: [2, 2, 9].flatMap BigEndian.word32

theorem ofBlob_paths_iff_single :
    ∃ info, (ofBlob (blobWithChild "/ab")).result = .ok info ∧
      ∀ m ∈ info.root.preorder, ∀ c ∈ m.children, c.path = Path.join m.path c.name := by
  let info : BootInfo := { root := { name := "", path := "/", children := [{ name := "ab", path := "/ab" }] } }
  have hread : (ofBlob (blobWithChild "/ab")).result = .ok info := by decide +kernel
  have hversion : Header.fieldAt (blobWithChild "/ab") .version = .ok 1 := by cbv
  exact ⟨info, hread, (ofBlob_paths_iff hread hversion).2.2 (.inr (by decide))⟩

/-- A stored path keeps the slash that would not be worked out. -/
theorem ofBlob_doubled_slash :
    (ofBlob (blobWithChild "//a")).result =
        .ok { root := { name := "", path := "/", children := [{ name := "a", path := "//a" }] } } ∧
      "//a" ≠ Path.join "/" "a" :=
  ⟨by decide +kernel, by decide⟩

end BootInfo

end DeviceTree
