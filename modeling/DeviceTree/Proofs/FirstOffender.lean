import DeviceTree.Assembly
import DeviceTree.Proofs.Refusal

/-!
# The first offender

What boot information is refused for can be read off it (`BootInfo.Refused`): a version that cannot be written, or
else its first reservation of size zero, or else the first of its names that cannot be stored. The names of a tree come
in the order of its records: a node's own, those of its properties, then those of its children (`Node.nameUses`). The
checks before writing search for this offender (`Refused.checkedVersion_eq`), for a blob as for assembly text, and what
they let pass is written if its sizes fit (`written_of_not_refused`).

* `refused_alike`: both kinds of output are refused for the first offender and for nothing else.
-/

namespace DeviceTree

/-- The first element of a list with a property. -/
def IsFirst {α : Type} (P : α → Prop) (l : List α) (a : α) : Prop :=
  P a ∧ ∃ before after, l = before ++ a :: after ∧ ∀ b ∈ before, ¬P b

theorem isFirst_iff_find? {α : Type} {P : α → Prop} [DecidablePred P] {l : List α} {a : α} :
    IsFirst P l a ↔ l.find? (fun b => decide (P b)) = some a := by
  rw [List.find?_eq_some_iff_append]
  simp only [IsFirst, decide_eq_true_eq, Bool.not_eq_true', decide_eq_false_iff_not]

/-- What fails for just one thing of a kind where there is one, and succeeds where there is none, fails for these. -/
theorem eq_error_iff_of_total {α ε : Type} {x : Except ε α} {P : ε → Prop} {e : ε}
    (hfails : ∀ e, P e → x = .error e) (htotal : (∀ e, ¬P e) → ∃ a, x = .ok a) : x = .error e ↔ P e := by
  refine ⟨fun h => ?_, hfails e⟩
  by_cases hsome : ∃ e', P e'
  · obtain ⟨e', he'⟩ := hsome
    rw [hfails e' he'] at h
    exact Except.error.inj h ▸ he'
  · obtain ⟨a, ha⟩ := htotal (not_exists.1 hsome)
    rw [ha] at h
    cases h

/-! ## The names of a tree -/

/-- A name that a tree is stored with. -/
inductive NameUse where
  | node (name : String)
  | property (name : String)
deriving DecidableEq, Repr

namespace NameUse

/-- The name itself. -/
def name : NameUse → String
  | node name | property name => name

/-- The name has a character that it cannot be stored with: a NUL, or in a node's name a slash. -/
def Offends : NameUse → Prop
  | node name => '\x00' ∈ name.toList ∨ '/' ∈ name.toList
  | property name => '\x00' ∈ name.toList

instance : DecidablePred Offends
  | node _ => inferInstanceAs (Decidable (_ ∨ _))
  | property name => inferInstanceAs (Decidable (_ ∈ name.toList))

end NameUse

namespace Node

/-- The names of a node itself: its own, then those of its properties. -/
def ownUses (n : Node) : List NameUse :=
  .node n.name :: n.properties.map fun p => .property p.name

/-- The names of a tree: those of the node itself, then those of the tree below each child. -/
def nameUses (n : Node) : List NameUse :=
  n.fold fun n below => n.ownUses ++ below.flatten

theorem nameUses_eq (n : Node) : n.nameUses = n.ownUses ++ n.children.flatMap nameUses := by
  rw [nameUses, fold_eq, List.flatMap_def]
  rfl

theorem nameUses_eq_preorder (n : Node) : n.nameUses = n.preorder.flatMap ownUses := by
  induction n using Node.induction with
  | step n ih =>
    rw [nameUses_eq, preorder_eq, List.flatMap_cons, List.flatMap_assoc, List.flatMap_def, List.flatMap_def,
      List.map_congr_left ih]

/-- What keeps a node from being written is the first of its names that offends. -/
theorem unwritableName?_eq_find? (n : Node) :
    n.unwritableName? = (n.ownUses.find? fun use => decide use.Offends).map NameUse.name := by
  have hown : n.name.toList.any (fun c => c == '\x00' || c == '/') = decide (NameUse.node n.name).Offends := by
    rw [Bool.eq_iff_iff, decide_eq_true_iff, List.any_eq_true]
    simp only [NameUse.Offends, Bool.or_eq_true, beq_iff_eq]
    grind
  have hproperties : (n.properties.map fun p => NameUse.property p.name).find? (fun use => decide use.Offends) =
      (n.properties.find? (·.name.toList.contains '\x00')).map fun p => .property p.name := by
    rw [List.find?_map]
    congr 2
    funext p
    rw [Bool.eq_iff_iff, List.contains_iff_mem, Function.comp_apply, decide_eq_true_iff]
    rfl
  rw [unwritableName?, hown, ownUses, List.find?_cons]
  cases decide (NameUse.node n.name).Offends with
  | true => rfl
  | false =>
    rw [hproperties, Option.map_map]
    rfl

/-- Searching a tree node by node is searching its names. -/
theorem findSome?_unwritableName? (n : Node) :
    n.preorder.findSome? unwritableName? = (n.nameUses.find? fun use => decide use.Offends).map NameUse.name := by
  have hfun : unwritableName? =
      fun m : Node => (m.ownUses.find? fun use => decide use.Offends).map NameUse.name :=
    funext unwritableName?_eq_find?
  rw [nameUses_eq_preorder, List.find?_flatMap, hfun, List.map_findSome?]
  rfl

end Node

/-! ## Refused -/

theorem Version.ofNumber?_eq_none_iff {n : UInt32} : ofNumber? n = none ↔ n ∉ [1, 2, 3, 16] := by
  refine ⟨fun h hn => ?_, fun h => ?_⟩
  · obtain ⟨v, hv⟩ := exists_of_mem hn
    rw [h] at hv
    cases hv
  · cases hv : Version.ofNumber? n with
    | none => rfl
    | some v =>
      rw [← number_of_ofNumber? hv] at h
      cases v <;> exact absurd (by decide) h

namespace BootInfo

variable {info : BootInfo} {s : Settings} {v : Version} {e : EncodeError}

/-- What boot information is refused for, if it is. -/
inductive Refused (info : BootInfo) (s : Settings) : EncodeError → Prop where
  /-- The version is none of those that can be written. -/
  | unknownVersion (hversion : s.version ∉ [1, 2, 3, 16]) : Refused info s (.unknownVersion s.version)
  /-- The first reservation of size zero. -/
  | emptyReservation {r : Reservation} (hversion : s.version ∈ [1, 2, 3, 16])
    (hfirst : IsFirst (·.size = 0) info.reservations r) : Refused info s (.emptyReservation r.address)
  /-- The first name that cannot be stored, where no reservation has size zero. -/
  | invalidName {use : NameUse} (hversion : s.version ∈ [1, 2, 3, 16])
    (hsizes : ∀ r ∈ info.reservations, r.size ≠ 0) (hfirst : IsFirst NameUse.Offends info.root.nameUses use) :
    Refused info s (.invalidName use.name)

/-- The checks before writing find the offender. -/
theorem Refused.checkedVersion_eq (h : info.Refused s e) : info.checkedVersion s = .error e := by
  cases h with
  | unknownVersion hversion =>
    unfold checkedVersion
    rw [Version.ofNumber?_eq_none_iff.2 hversion]
  | emptyReservation hversion hfirst =>
    obtain ⟨v, hv⟩ := Version.exists_of_mem hversion
    have hfind : info.reservations.find? (·.size == 0) = some _ := isFirst_iff_find?.1 hfirst
    rw [checkedVersion_eq hv, checkWritable, hfind]
    rfl
  | @invalidName use hversion hsizes hfirst =>
    obtain ⟨v, hv⟩ := Version.exists_of_mem hversion
    have hname : info.checkWritable = .error (.invalidName use.name) := by
      rw [checkWritable_invalidName_iff hsizes, Node.findSome?_unwritableName?, isFirst_iff_find?.1 hfirst]
      rfl
    rw [checkedVersion_eq hv, hname]
    rfl

/-- Boot information that is not refused can be written. -/
theorem refused_or_writable (info : BootInfo) (s : Settings) :
    (∃ e, info.Refused s e) ∨ ∃ v, Version.ofNumber? s.version = some v ∧ info.Writable := by
  by_cases hversion : s.version ∈ [1, 2, 3, 16]
  · obtain ⟨v, hv⟩ := Version.exists_of_mem hversion
    cases hr : info.reservations.find? (fun r => decide (r.size = 0)) with
    | some r => exact .inl ⟨_, .emptyReservation hversion (isFirst_iff_find?.2 hr)⟩
    | none =>
      have hsizes : ∀ r ∈ info.reservations, r.size ≠ 0 := by simpa using List.find?_eq_none.1 hr
      cases huse : info.root.nameUses.find? (fun use => decide use.Offends) with
      | some use => exact .inl ⟨_, .invalidName hversion hsizes (isFirst_iff_find?.2 huse)⟩
      | none =>
        have hnames : info.root.preorder.findSome? Node.unwritableName? = none := by
          rw [Node.findSome?_unwritableName?, huse]
          rfl
        have hcheck : info.checkWritable = .ok () := by
          have hfind : info.reservations.find? (·.size == 0) = none := hr
          rw [checkWritable, hfind, hnames]
        exact .inr ⟨v, hv, checkWritable_eq_ok_iff.1 hcheck⟩
  · exact .inl ⟨_, .unknownVersion hversion⟩

/-! ## Both kinds of output -/

/-- Nothing is written of what is refused, and nothing is noted. -/
theorem Refused.toBlob_eq (h : info.Refused s e) : info.toBlob s = ⟨[], .error e⟩ := by
  unfold toBlob
  rw [h.checkedVersion_eq]
  rfl

theorem Refused.toAssembly_eq (h : info.Refused s e) : info.toAssembly s = .error e := by
  unfold toAssembly
  rw [h.checkedVersion_eq]
  rfl

/-- What is not refused is written, as a blob and as assembly text, if its sizes fit. -/
theorem written_of_not_refused (h : ∀ e, ¬info.Refused s e)
    (hsizes : ∀ v, Version.ofNumber? s.version = some v → info.SizesFit v) :
    (∃ b, (info.toBlob s).result = .ok b) ∧ ∃ text, info.toAssembly s = .ok text := by
  rcases info.refused_or_writable s with ⟨e, hrefused⟩ | ⟨v, hv, hwritable⟩
  · exact absurd hrefused (h e)
  have hfit := hsizes v hv
  have hversion : info.checkedVersion s = .ok v := checkedVersion_eq_ok_iff.2 ⟨hv, hwritable⟩
  have hflat : Structure.flatten v.features info.root = .ok (info.stringTable v, _) :=
    Structure.flatten_eq_ok_iff.2 ⟨hfit.records, rfl, rfl⟩
  refine ⟨⟨_, toBlob_eq_ok_iff.2 ⟨v, hv, hwritable, hfit, rfl⟩⟩, ?_⟩
  unfold toAssembly
  rw [hversion, ok_bind, hflat]
  exact ⟨_, rfl⟩

/-- Where sizes fit, a blob and assembly text are refused for the first offender and for nothing else: an unknown
version, or else the first reservation of size zero, or else the first name that cannot be stored. -/
theorem refused_alike (hsizes : ∀ v, Version.ofNumber? s.version = some v → info.SizesFit v) :
    (∀ e, (info.toBlob s).result = .error e ↔ info.Refused s e) ∧
    (∀ e, info.toAssembly s = .error e ↔ info.Refused s e) ∧
    (∀ e, info.Refused s e → (info.toBlob s).notices = []) ∧
    ((∀ e, ¬info.Refused s e) →
      (∃ b, (info.toBlob s).result = .ok b) ∧ ∃ text, info.toAssembly s = .ok text) := by
  have hwritten (h : ∀ e, ¬info.Refused s e) := written_of_not_refused h hsizes
  refine ⟨fun e => ?_, fun e => ?_, fun e h => by rw [h.toBlob_eq], hwritten⟩
  · exact eq_error_iff_of_total (fun e h => by rw [h.toBlob_eq]) fun h => (hwritten h).1
  · exact eq_error_iff_of_total (fun e h => h.toAssembly_eq) fun h => (hwritten h).2

/-- A tree in which the name of a property with a NUL comes before the name of a node with a slash. -/
def offending : BootInfo where
  root := Node.named "" |>.attach ((Node.named "cpu@0").addProperty ⟨"re\x00g", [0, 0, 0, 1], none⟩)
    |>.attach (Node.named "a/b")
  reservations := [⟨0x1000, 0x10⟩]

theorem refused_alike_offending :
    (offending.toBlob { version := 3 }).result = .error (.invalidName "re\x00g") ∧
      offending.toAssembly { version := 3 } = .error (.invalidName "re\x00g") := by
  have hsizes : ∀ v, Version.ofNumber? 3 = some v → offending.SizesFit v := fun v hv => by
    obtain rfl := Option.some.inj hv
    exact ⟨by unfold Structure.RecordsFit; decide +kernel, by decide +kernel⟩
  obtain ⟨hblob, hassembly, -, -⟩ := refused_alike (s := { version := 3 }) hsizes
  have hfirst : IsFirst NameUse.Offends offending.root.nameUses (.property "re\x00g") :=
    isFirst_iff_find?.2 (by decide +kernel)
  have hrefused : offending.Refused { version := 3 } (.invalidName "re\x00g") :=
    .invalidName (by decide) (by decide) hfirst
  exact ⟨(hblob _).2 hrefused, (hassembly _).2 hrefused⟩

end BootInfo

end DeviceTree
