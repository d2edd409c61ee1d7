import DeviceTree.Layout
import DeviceTree.Proofs.Emission

/-!
# Symbols of the parts of a blob

Assembly text has two symbols for each part of the blob, and numbers for the tokens. If the labels of the tree are
none of the former, a text with the labels of a layout has them stand for the places of that layout (`Knows`,
`knows_symbolsOf`). The exported symbol of one part is never the other symbol of another: it would have to end in an
underscore and a part's name, with nothing left for the rest (`exported_ne_partSymbol`).
-/

namespace DeviceTree

namespace Assembly

/-- The places of the parts up to the structure block. -/
def frontMarks (l : Layout) : List (String × Nat) :=
  [("blob_start", 0), ("header", 0), ("reserve_map", l.reservationsOffset), ("struct_start", l.structureOffset)]

/-- The places of the parts behind the structure block. -/
def backMarks (l : Layout) : List (String × Nat) :=
  [("struct_end", l.stringsOffset), ("strings_start", l.stringsOffset), ("strings_end", l.totalSize),
    ("blob_end", l.totalSize)]

/-- The places of all parts. -/
def marks (l : Layout) : List (String × Nat) :=
  frontMarks l ++ backMarks l

/-- The parts that are marked. -/
def parts : List String :=
  ["blob_start", "header", "reserve_map", "struct_start", "struct_end", "strings_start", "strings_end", "blob_end"]

/-- The symbols that stand for a part. -/
def symbolsOfPart (symbolPrefix part : String) : List String :=
  [symbolPrefix ++ "_" ++ part, partSymbol symbolPrefix part]

/-- The symbols that stand for parts. -/
def partSymbols (symbolPrefix : String) : List String :=
  parts.flatMap (symbolsOfPart symbolPrefix)

/-- The labels of a part at a place. -/
def markLabels (symbolPrefix : String) (m : String × Nat) : List (String × Nat) :=
  (symbolsOfPart symbolPrefix m.1).map (·, m.2)

/-- The symbols that stand for numbers. -/
def constants : List (String × Nat) :=
  (preamble.map Directive.statement).filterMap Assembler.Statement.defined?

/-- The symbols of a text for a blob with this layout, loaded at an address, that has these other labels. -/
def symbolsOf (address : Nat) (symbolPrefix : String) (l : Layout) (labels : List (String × Nat)) :
    Assembler.Symbols :=
  ⟨address, constants, (frontMarks l).flatMap (markLabels symbolPrefix) ++ labels ++
    (backMarks l).flatMap (markLabels symbolPrefix)⟩

/-- The symbols stand for the numbers and the parts that they are meant to stand for. -/
structure Knows (symbols : Assembler.Symbols) (symbolPrefix : String) (l : Layout) : Prop where
  constant : ∀ c ∈ constants, symbols.value? c.1 = some (c.2 : Int)
  part : ∀ m ∈ marks l, symbols.value? (partSymbol symbolPrefix m.1) = some (symbols.address + m.2 : Nat)

theorem isSymbol_of_part {symbolPrefix part s : String} (hp : Assembler.IsSymbol symbolPrefix)
    (hpart : part ∈ parts) (hs : s ∈ symbolsOfPart symbolPrefix part) : Assembler.IsSymbol s := by
  have hchars : ∀ part ∈ parts, part.toList.all Assembler.isWordChar = true := by decide
  obtain ⟨hall, c, hc, hdigit⟩ := hp
  have htail : ∀ d ∈ symbolPrefix.toList ++ '_' :: part.toList, Assembler.isWordChar d = true := by
    rw [List.forall_mem_append, List.forall_mem_cons]
    exact ⟨hall, by decide, List.all_eq_true.1 (hchars part hpart)⟩
  rcases List.mem_cons.1 hs with rfl | hs
  · refine ⟨fun d hd => htail d ?_, c, ?_, hdigit⟩
    · simpa using hd
    · simp [hc]
  · obtain rfl := List.mem_singleton.1 hs
    have hlist : (partSymbol symbolPrefix part).toList = '_' :: (symbolPrefix.toList ++ '_' :: part.toList) := by
      simp [partSymbol]
    refine ⟨?_, '_', ?_, by decide⟩
    · rw [hlist, List.forall_mem_cons]
      exact ⟨by decide, htail⟩
    · rw [hlist]
      rfl

theorem partSymbol_inj {symbolPrefix part other : String} :
    partSymbol symbolPrefix part = partSymbol symbolPrefix other ↔ part = other := by
  simp [partSymbol, ← String.toList_inj]

/-- The exported symbol of a part has one character less in front, which an underscore could make up for. -/
theorem exported_ne_partSymbol {symbolPrefix part : String} (hpart : part.toList.head? ≠ some '_') (other : String) :
    symbolPrefix ++ "_" ++ part ≠ partSymbol symbolPrefix other := by
  intro h
  have hlist : symbolPrefix.toList ++ ['_'] ++ part.toList =
      '_' :: symbolPrefix.toList ++ '_' :: other.toList := by
    simpa [partSymbol] using congrArg String.toList h
  have hlen := congrArg List.length hlist
  simp only [List.length_append, List.length_cons, List.length_nil] at hlen
  have htail : part.toList = '_' :: other.toList := (List.append_inj' hlist (by rw [List.length_cons]; omega)).2
  rw [htail] at hpart
  exact hpart rfl

/-- The labels with a part's symbol for other lines are those of the marks of that part. -/
theorem filter_markLabels {symbolPrefix : String} {marks : List (String × Nat)}
    (hmarks : ∀ m ∈ marks, m.1.toList.head? ≠ some '_') (part : String) :
    (marks.flatMap (markLabels symbolPrefix)).filter (·.1 == partSymbol symbolPrefix part) =
      (marks.filter (·.1 == part)).map fun m => (partSymbol symbolPrefix part, m.2) := by
  induction marks with
  | nil => rfl
  | cons m marks ih =>
    obtain ⟨hm, hmarks⟩ := List.forall_mem_cons.1 hmarks
    have hexported : symbolPrefix ++ "_" ++ m.1 ≠ partSymbol symbolPrefix part := exported_ne_partSymbol hm part
    rw [List.flatMap_cons, List.filter_append, ih hmarks]
    by_cases hpart : m.1 = part
    · subst hpart
      simp [markLabels, symbolsOfPart, hexported]
    · simp [markLabels, symbolsOfPart, hexported, hpart, partSymbol_inj]

theorem mem_parts_of_mem_marks {l : Layout} {m : String × Nat} (hm : m ∈ marks l) : m.1 ∈ parts := by
  have hparts : (marks l).map (·.1) = parts := rfl
  rw [← hparts]
  exact List.mem_map.2 ⟨m, hm, rfl⟩

theorem head?_part : ∀ part ∈ parts, part.toList.head? ≠ some '_' := by
  decide +kernel

theorem filter_marks {l : Layout} {m : String × Nat} (hm : m ∈ marks l) : (marks l).filter (·.1 == m.1) = [m] := by
  simp only [marks, frontMarks, backMarks, List.cons_append, List.nil_append, List.mem_cons, List.not_mem_nil,
    or_false] at hm
  rcases hm with rfl | rfl | rfl | rfl | rfl | rfl | rfl | rfl <;> rfl

theorem lookup_partSymbol (symbolPrefix part : String) : constants.lookup (partSymbol symbolPrefix part) = none := by
  have hhead : ∀ c ∈ constants, c.1.toList.head? ≠ some '_' := by decide +kernel
  refine List.lookup_eq_none_iff.2 fun c hc => bne_iff_ne.2 fun h => hhead c hc ?_
  rw [← h]
  simp [partSymbol]

/-- One label has the symbol that other lines use for a part, if no other label has a symbol of a part. -/
theorem filter_symbolsOf {address : Nat} {symbolPrefix : String} {l : Layout} {labels : List (String × Nat)}
    (hlabels : ∀ m ∈ labels, m.1 ∉ partSymbols symbolPrefix) {m : String × Nat} (hm : m ∈ marks l) :
    (symbolsOf address symbolPrefix l labels).labels.filter (·.1 == partSymbol symbolPrefix m.1) =
      [(partSymbol symbolPrefix m.1, m.2)] := by
  have hnot : labels.filter (·.1 == partSymbol symbolPrefix m.1) = [] := by
    refine List.filter_eq_nil_iff.2 fun other hother heq => hlabels other hother ?_
    rw [beq_iff_eq.1 heq]
    exact List.mem_flatMap.2 ⟨m.1, mem_parts_of_mem_marks hm, List.mem_cons_of_mem _ List.mem_cons_self⟩
  have hheads : ∀ m ∈ marks l, m.1.toList.head? ≠ some '_' := fun m hm => head?_part m.1 (mem_parts_of_mem_marks hm)
  obtain ⟨hfront, hback⟩ := List.forall_mem_append.1 hheads
  have hmarks : frontMarks l ++ backMarks l = marks l := rfl
  rw [symbolsOf, List.filter_append, List.filter_append, hnot, List.append_nil, filter_markLabels hfront,
    filter_markLabels hback, ← List.map_append, ← List.filter_append, hmarks, filter_marks hm]
  rfl

theorem knows_symbolsOf {address : Nat} {symbolPrefix : String} {l : Layout} {labels : List (String × Nat)}
    (hlabels : ∀ m ∈ labels, m.1 ∉ partSymbols symbolPrefix) :
    Knows (symbolsOf address symbolPrefix l labels) symbolPrefix l := by
  have hconstants : ∀ c ∈ constants, constants.lookup c.1 = some c.2 := by decide +kernel
  refine ⟨fun c hc => ?_, fun m hm => ?_⟩
  · simp only [Assembler.Symbols.value?, symbolsOf, hconstants c hc]
  · have hlookup : (symbolsOf address symbolPrefix l labels).defined.lookup (partSymbol symbolPrefix m.1) = none :=
      lookup_partSymbol symbolPrefix m.1
    rw [Assembler.Symbols.value?, hlookup, filter_symbolsOf hlabels hm]
    rfl

end Assembly

end DeviceTree
