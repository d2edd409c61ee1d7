import DeviceTree.Proofs.Writing

/-!
# Why boot information is not written

The checks come first, and what they refuse is refused (`toBlob_of_refused`). Once they have passed, the only
thing left to fail is a size (`toBlob_of_writable`). So a name is refused just when the checks refuse it
(`toBlob_invalidName_iff`), and that is the first one in preorder that cannot be written.
-/

namespace DeviceTree

theorem Quantity.check_error {q : Quantity} {n : Nat} {e : EncodeError} (h : q.check n = .error e) :
    e = .tooLarge q := by
  unfold check at h
  split at h
  · cases h
  · exact (Except.error.inj h).symm

theorem Structure.checkSizes_error {offset : String → Nat} {sizes : List (String × Nat)} {e : EncodeError}
    (h : checkSizes offset sizes = .error e) : ∃ q, e = .tooLarge q := by
  induction sizes with
  | nil => cases h
  | cons size sizes ih =>
    unfold checkSizes at h
    rcases bind_eq_error_iff.1 h with h | ⟨_, -, h⟩
    · exact ⟨_, Quantity.check_error h⟩
    rcases bind_eq_error_iff.1 h with h | ⟨_, -, h⟩
    · exact ⟨_, Quantity.check_error h⟩
    · exact ih h

theorem Structure.flatten_error {f : Features} {root : Node} {e : EncodeError} (h : flatten f root = .error e) :
    ∃ q, e = .tooLarge q := by
  unfold flatten at h
  rcases bind_eq_error_iff.1 h with h | ⟨_, -, h⟩
  · exact checkSizes_error h
  · cases h

theorem Layout.check_error {l : Layout} {v : Version} {sizes : BlockSizes} {e : EncodeError}
    (h : l.check v sizes = .error e) : ∃ q, e = .tooLarge q := by
  unfold check at h
  iterate 4
    rcases bind_eq_error_iff.1 h with h | ⟨_, -, h⟩
    · exact ⟨_, Quantity.check_error h⟩
  split at h
  · exact ⟨_, Quantity.check_error h⟩
  · cases h

theorem Version.exists_of_mem {n : UInt32} (h : n ∈ [1, 2, 3, 16]) : ∃ v : Version, ofNumber? n = some v := by
  simp only [List.mem_cons, List.not_mem_nil, or_false] at h
  obtain rfl | rfl | rfl | rfl := h
  · exact ⟨.v1, rfl⟩
  · exact ⟨.v2, rfl⟩
  · exact ⟨.v3, rfl⟩
  · exact ⟨.v16, rfl⟩

namespace BootInfo

variable {info : BootInfo} {s : Settings} {v : Version}

theorem checkedVersion_eq (hv : Version.ofNumber? s.version = some v) :
    info.checkedVersion s = info.checkWritable.map fun _ => v := by
  unfold checkedVersion
  rw [hv]

/-- What the checks refuse is not written. -/
theorem toBlob_of_refused {e : EncodeError} (hv : Version.ofNumber? s.version = some v)
    (h : info.checkWritable = .error e) : (info.toBlob s).result = .error e := by
  unfold toBlob
  simp only [Outcome.result_bind]
  exact bind_eq_error_iff.2 (.inl (by rw [checkedVersion_eq hv, h]; rfl))

/-- What the checks let pass fails only by a size. -/
theorem toBlob_error_of_writable {e : EncodeError} (hv : Version.ofNumber? s.version = some v)
    (hwritable : info.Writable) (h : (info.toBlob s).result = .error e) : ∃ q, e = .tooLarge q := by
  have hversion : info.checkedVersion s = .ok v := checkedVersion_eq_ok_iff.2 ⟨hv, hwritable⟩
  unfold toBlob at h
  simp only [Outcome.result_bind] at h
  rcases bind_eq_error_iff.1 h with h | ⟨_, -, h⟩
  · rw [hversion] at h
    cases h
  rcases bind_eq_error_iff.1 h with h | ⟨_, -, h⟩
  · exact Structure.flatten_error h
  rcases bind_eq_error_iff.1 h with h | ⟨_, -, h⟩
  · exact Layout.check_error h
  · cases h

/-- What the checks let pass is written if its sizes fit. -/
theorem toBlob_of_writable (hv : Version.ofNumber? s.version = some v) (hwritable : info.Writable)
    (hsizes : ∀ q, (info.toBlob s).result ≠ .error (.tooLarge q)) :
    info.SizesFit v ∧ (info.toBlob s).result = .ok (info.blobBytes v s.blobCpuid) := by
  cases h : (info.toBlob s).result with
  | error e =>
    obtain ⟨q, rfl⟩ := toBlob_error_of_writable hv hwritable h
    exact absurd h (hsizes q)
  | ok b =>
    obtain ⟨v', hv', -, hfit, rfl⟩ := toBlob_eq_ok_iff.1 h
    obtain rfl := Option.some.inj (hv.symm.trans hv')
    exact ⟨hfit, rfl⟩

theorem toBlob_invalidName_iff {name : String} (hv : Version.ofNumber? s.version = some v) :
    (info.toBlob s).result = .error (.invalidName name) ↔ info.checkWritable = .error (.invalidName name) := by
  refine ⟨fun h => ?_, toBlob_of_refused hv⟩
  cases hcheck : info.checkWritable with
  | error e =>
    rw [toBlob_of_refused hv hcheck] at h
    rw [Except.error.inj h]
  | ok u =>
    obtain ⟨q, hq⟩ := toBlob_error_of_writable hv (checkWritable_eq_ok_iff.1 hcheck) h
    cases hq

/-- Where no reservation has size zero, the checks refuse the first name in preorder that cannot be written. -/
theorem checkWritable_invalidName_iff {name : String} (hsizes : ∀ r ∈ info.reservations, r.size ≠ 0) :
    info.checkWritable = .error (.invalidName name) ↔
      info.root.preorder.findSome? Node.unwritableName? = some name := by
  have hnone : info.reservations.find? (·.size == 0) = none :=
    List.find?_eq_none.2 fun r hr => by simpa using hsizes r hr
  unfold checkWritable
  rw [hnone]
  dsimp only
  split
  · rename_i name' hname
    rw [hname]
    simp
  · rename_i hname
    rw [hname]
    simp

end BootInfo

end DeviceTree
