import DeviceTree.Proofs.Building

/-!
# Finding nodes by path

A path is a text, and it is also a way through a tree: from the root, each of its names leads to the first child so
called. In a tree whose paths follow from a slash, the two agree. Along names that are not empty and have no slash, the
recorded path is these names with a slash before each (`Walk.path_eq`, `foldl_join`), and taking that text apart gives
the names again (`names_ofNames`).

* `find?_by_path`: what is found at a path has that path, and a node that a walk leads to is found at its own.
-/

namespace DeviceTree

namespace Split

theorem pieces_eq_splitOn (sep : Char) (cs : List Char) : pieces sep cs = cs.splitOn sep := by
  induction cs with
  | nil => rfl
  | cons c cs ih =>
    obtain ⟨piece, rest, hsplit⟩ := List.exists_cons_of_ne_nil (cs.splitOn_ne_nil sep)
    rw [pieces, ih, List.splitOn_cons_eq_if_modifyHead, hsplit]
    by_cases hc : c = sep
    · simp [hc]
    · simp [hc]

theorem notMem_of_mem_pieces {sep : Char} {cs piece : List Char} (h : piece ∈ pieces sep cs) : sep ∉ piece := by
  induction cs generalizing piece with
  | nil =>
    obtain rfl := List.mem_singleton.1 h
    exact List.not_mem_nil
  | cons c cs ih =>
    rw [pieces] at h
    split at h
    · rcases List.mem_cons.1 h with rfl | h
      · exact List.not_mem_nil
      · exact ih h
    · rename_i hc
      split at h
      · obtain rfl := List.mem_singleton.1 h
        simpa using Ne.symm hc
      · rename_i first rest hpieces
        have hfirst : sep ∉ first := ih (by rw [hpieces]; exact List.mem_cons_self)
        rcases List.mem_cons.1 h with rfl | h
        · simp [Ne.symm hc, hfirst]
        · exact ih (by rw [hpieces]; exact List.mem_cons_of_mem _ h)

end Split

namespace Path

/-- The names on a path: what stands between its slashes and is not empty. -/
def names (path : String) : List String :=
  ((path.toList.splitOn '/').filter (· ≠ [])).map String.ofList

/-- The path that leads from the root along names. -/
def ofNames (ns : List String) : String :=
  "/" ++ "/".intercalate ns

/-- A name that is a step of a path: it is not empty and has no slash. -/
def IsStep (name : String) : Prop :=
  name ≠ "" ∧ '/' ∉ name.toList

instance (name : String) : Decidable (IsStep name) :=
  inferInstanceAs (Decidable (_ ∧ _))

variable {name path : String} {ns : List String}

theorem components?_eq (path : String) :
    components? path = if path.toList.head? = some '/' then some (names path) else none := by
  rw [components?, names, Split.words, Split.pieces_eq_splitOn]

theorem isStep_of_mem_names (h : name ∈ names path) : IsStep name := by
  obtain ⟨piece, hpiece, rfl⟩ := List.mem_map.1 h
  obtain ⟨hmem, hne⟩ := List.mem_filter.1 hpiece
  rw [← Split.pieces_eq_splitOn] at hmem
  refine ⟨fun h => ?_, ?_⟩
  · exact of_decide_eq_true hne (by simpa using congrArg String.toList h)
  · rw [String.toList_ofList]
    exact Split.notMem_of_mem_pieces hmem

/-- Taking apart the path that leads along names gives the names again. -/
theorem names_ofNames (h : ∀ name ∈ ns, IsStep name) : names (ofNames ns) = ns := by
  have hlist : (ofNames ns).toList = '/' :: ['/'].intercalate (ns.map String.toList) := by
    rw [ofNames, String.toList_append, String.toList_intercalate]
    rfl
  have hslash : ∀ piece ∈ ns.map String.toList, '/' ∉ piece := by
    simpa using fun name hname => (h name hname).2
  have hkeep : (ns.map String.toList).filter (· ≠ []) = ns.map String.toList :=
    List.filter_eq_self.2 (by simpa using fun name hname => (h name hname).1)
  rw [names, hlist, List.splitOn_cons_eq_if_modifyHead, if_pos (by decide), List.filter_cons_of_neg (by decide)]
  cases ns with
  | nil => decide
  | cons first rest =>
    rw [List.splitOn_intercalate _ hslash (by simp), hkeep, List.map_map]
    exact map_eq_self fun name _ => String.ofList_toList

theorem ofNames_concat (h : ns ≠ []) (name : String) : ofNames (ns ++ [name]) = ofNames ns ++ "/" ++ name := by
  rw [ofNames, ofNames, String.intercalate_append_of_ne_nil h (by simp), String.intercalate_singleton]
  simp only [String.append_assoc]

/-- A path along names ends with the last of them. -/
theorem exists_ofNames_concat (ns : List String) (last : String) :
    ∃ before, ofNames (ns ++ [last]) = before ++ last := by
  cases ns with
  | nil => exact ⟨"/", rfl⟩
  | cons first rest => exact ⟨ofNames (first :: rest) ++ "/", ofNames_concat (by simp) last⟩

/-- Joining a name to the path that leads along others gives the path along all of them. -/
theorem join_ofNames (h : ∀ name ∈ ns, IsStep name) (name : String) : join (ofNames ns) name = ofNames (ns ++ [name]) := by
  rcases List.eq_nil_or_concat ns with rfl | ⟨front, last, rfl⟩
  · exact join_of_slash rfl name
  · rw [List.concat_eq_append] at h ⊢
    obtain ⟨hname, hslash⟩ := h last (by simp)
    obtain ⟨before, hends⟩ := exists_ofNames_concat front last
    have hlast : (ofNames (front ++ [last])).toList.getLast? ≠ some '/' := by
      rw [hends]
      exact not_slash_append before hname hslash
    rw [join_of_no_slash hlast, ← ofNames_concat (by simp)]

/-- Joining names one after the other gives the path along them. -/
theorem foldl_join {front : List String} (h : ∀ name ∈ front ++ ns, IsStep name) :
    ns.foldl join (ofNames front) = ofNames (front ++ ns) := by
  induction ns generalizing front with
  | nil => rw [List.foldl_nil, List.append_nil]
  | cons name ns ih =>
    have hfront : ∀ name ∈ front, IsStep name := fun name hname => h name (List.mem_append_left _ hname)
    rw [List.append_cons] at h ⊢
    rw [List.foldl_cons, join_ofNames hfront, ih h]

theorem head?_ofNames (ns : List String) : (ofNames ns).toList.head? = some '/' := by
  rw [ofNames, String.toList_append]
  rfl

end Path

namespace Node

variable {n m : Node} {ns : List String} {around : Node → Node}

theorem Walk.descend (h : Walk n ns m around) : n.descend ns = .ok m := by
  induction h with
  | here n => rfl
  | @child n child m before after ns around hchildren hfirst _ ih =>
    have hchild : n.child? child.name = some child :=
      List.find?_eq_some_iff_append.2 ⟨beq_self_eq_true _, before, after, hchildren, by simpa using hfirst⟩
    rw [Node.descend, hchild]
    exact ih

theorem toOption_descend_eq_some_iff : (n.descend ns).toOption = some m ↔ ∃ around, Walk n ns m around := by
  refine ⟨fun h => walk_of_descend ?_, fun ⟨_, hwalk⟩ => by rw [hwalk.descend]; rfl⟩
  cases hd : n.descend ns with
  | error name =>
    rw [hd] at h
    cases h
  | ok k =>
    rw [hd] at h
    rw [Option.some.inj h]

/-- Where paths follow, a walk adds its names to the path. -/
theorem Walk.path_eq (h : Walk n ns m around) (hpaths : n.PathsFollow) : m.path = ns.foldl Path.join n.path := by
  induction h with
  | here n => rfl
  | @child n child m before after ns around hchildren hfirst _ ih =>
    have hmem : child ∈ n.children := by
      rw [hchildren]
      simp
    rw [ih (hpaths.child hmem), hpaths n n.mem_preorder_self child hmem, List.foldl_cons]

end Node

namespace BootInfo

variable {info : BootInfo}

/-- In a tree whose paths follow from a slash, a walk along steps leads to the path along them. -/
theorem path_eq_ofNames {m : Node} {names : List String} {around : Node → Node} (hroot : info.root.path = "/")
    (hpaths : info.root.PathsFollow) (hwalk : Node.Walk info.root names m around)
    (hnames : ∀ name ∈ names, Path.IsStep name) : m.path = Path.ofNames names := by
  have hjoin : names.foldl Path.join (Path.ofNames []) = Path.ofNames ([] ++ names) := Path.foldl_join hnames
  rw [hwalk.path_eq hpaths, hroot]
  exact hjoin

/-- What is found is where a walk along the names in the path leads. -/
theorem find?_eq_some_iff {path : String} {m : Node} :
    info.find? path = some m ↔
      path.toList.head? = some '/' ∧ ∃ around, Node.Walk info.root (Path.names path) m around := by
  unfold find?
  rw [Path.components?_eq]
  split
  · rename_i hslash
    rw [Option.bind_some, Node.toOption_descend_eq_some_iff]
    exact (and_iff_right hslash).symm
  · rename_i hslash
    simp [hslash]

/-- What is found at a path is a node of the tree with the path along the names in it. A node that a walk from the root
leads to, along names that are not empty and have no slash, is found at its own path, and at any that starts with a
slash and has the same names in it. -/
theorem find?_by_path (hroot : info.root.path = "/") (hpaths : info.root.PathsFollow) :
    (∀ path m, info.find? path = some m →
      path.toList.head? = some '/' ∧ m ∈ info.root.preorder ∧ m.path = "/" ++ "/".intercalate (Path.names path)) ∧
    ∀ names m around, Node.Walk info.root names m around → (∀ name ∈ names, name ≠ "" ∧ '/' ∉ name.toList) →
      info.find? m.path = some m ∧
        ∀ path : String, path.toList.head? = some '/' → Path.names path = Path.names m.path →
          info.find? path = some m := by
  refine ⟨fun path m h => ?_, fun names m around hwalk hnames => ?_⟩
  · obtain ⟨hslash, around, hwalk⟩ := find?_eq_some_iff.1 h
    exact ⟨hslash, hwalk.mem_preorder,
      path_eq_ofNames hroot hpaths hwalk fun name => Path.isStep_of_mem_names⟩
  · have hpath : m.path = Path.ofNames names := path_eq_ofNames hroot hpaths hwalk hnames
    have hsame : Path.names m.path = names := by rw [hpath, Path.names_ofNames hnames]
    have hfind (path : String) (hslash : path.toList.head? = some '/') (h : Path.names path = Path.names m.path) :
        info.find? path = some m :=
      find?_eq_some_iff.2 ⟨hslash, around, by rwa [h, hsame]⟩
    exact ⟨hfind m.path (by rw [hpath, Path.head?_ofNames]) rfl, hfind⟩

/-- Two nodes of one name beside each other, of which only the first is found. -/
def siblings : BootInfo where
  root := ((Node.named "").attach ((Node.named "soc").attach (Node.named "uart@1000"))).attach
    ((Node.named "soc").attach (Node.named "port"))

theorem find?_by_path_siblings :
    ∃ m, siblings.find? m.path = some m ∧ siblings.find? "//soc///uart@1000/" = some m ∧
      m ∈ siblings.root.preorder ∧ m.path = "/" ++ "/".intercalate (Path.names "//soc///uart@1000/") := by
  have hpaths : siblings.root.PathsFollow := by decide +kernel
  obtain ⟨hsound, hcomplete⟩ := find?_by_path (by decide) hpaths
  obtain ⟨m, hm⟩ : ∃ m, siblings.root.descend ["soc", "uart@1000"] = .ok m := ⟨_, rfl⟩
  have hpath : (siblings.root.descend ["soc", "uart@1000"]).map Node.path = .ok "/soc/uart@1000" := by decide +kernel
  rw [hm] at hpath
  obtain ⟨around, hwalk⟩ := Node.walk_of_descend hm
  obtain ⟨hself, hsame⟩ := hcomplete _ m around hwalk (by decide)
  have hfound : siblings.find? "//soc///uart@1000/" = some m :=
    hsame _ (by decide) (by rw [Except.ok.inj hpath]; decide +kernel)
  exact ⟨m, hself, hfound, (hsound _ m hfound).2⟩

end BootInfo

end DeviceTree
