import DeviceTree.Proofs.Reader

/-!
# Joining paths and taking them apart

A path that `join` writes is taken apart again under the path it was written for, but for one corner: under a
path that already ends in a slash, other than the slash itself, `join` writes no second one, and none is left to
take (`nameWithin?_join`). A path that is joined from a name ends as the name does (`not_slash_join`).
-/

namespace DeviceTree.Path

/-- The nodes inside one at this path are stored so that they are found to be inside it. -/
def Bears (parent : String) : Prop :=
  parent.toList.getLast? = some '/' → parent = "/"

instance (parent : String) : Decidable (Bears parent) :=
  inferInstanceAs (Decidable (_ → _))

theorem join_of_slash {parent : String} (h : parent.toList.getLast? = some '/') (name : String) :
    join parent name = parent ++ name :=
  if_pos h

theorem join_of_no_slash {parent : String} (h : parent.toList.getLast? ≠ some '/') (name : String) :
    join parent name = parent ++ "/" ++ name :=
  if_neg h

theorem slash_mem_join (parent name : String) : '/' ∈ (join parent name).toList := by
  by_cases h : parent.toList.getLast? = some '/'
  · rw [join_of_slash h, String.toList_append]
    exact List.mem_append_left _ (List.mem_of_getLast? h)
  · rw [join_of_no_slash h]
    simp

theorem join_ne_empty (parent name : String) : join parent name ≠ "" := by
  intro h
  have hmem := slash_mem_join parent name
  rw [h] at hmem
  exact absurd hmem (by decide)

theorem mem_join {parent name : String} {c : Char} (hc : c ∈ (join parent name).toList) :
    c ∈ parent.toList ∨ c = '/' ∨ c ∈ name.toList := by
  by_cases h : parent.toList.getLast? = some '/'
  · rw [join_of_slash h, String.toList_append, List.mem_append] at hc
    exact hc.elim .inl fun hc => .inr (.inr hc)
  · rw [join_of_no_slash h] at hc
    simp only [String.toList_append, List.mem_append] at hc
    rcases hc with (hc | hc) | hc
    · exact .inl hc
    · exact .inr (.inl (by simpa using hc))
    · exact .inr (.inr hc)

theorem nameWithin?_join {parent name : String} (hparent : parent ≠ "") (hname : '/' ∉ name.toList) :
    nameWithin? (some parent) (join parent name) = if Bears parent then some name else none := by
  split
  · rename_i hbears
    refine nameWithin?_eq_some_iff.2 ⟨hname, ?_⟩
    by_cases h : parent.toList.getLast? = some '/'
    · obtain rfl := hbears h
      exact ⟨"", by rw [join_of_slash h]; simp, if_pos rfl⟩
    · exact ⟨parent, by rw [join_of_no_slash h], if_neg hparent⟩
  · rename_i hbears
    have hslash : parent.toList.getLast? = some '/' := Decidable.by_contra fun h => hbears fun h' => absurd h' h
    cases hn : nameWithin? (some parent) (join parent name) with
    | none => rfl
    | some name' =>
      obtain ⟨-, dir, hjoin, hdir⟩ := nameWithin?_eq_some_iff.1 hn
      split at hdir
      · exact absurd (fun _ => hdir.symm) hbears
      · subst hdir
        rw [join_of_slash hslash, String.append_assoc, String.append_right_inj] at hjoin
        exact absurd (by rw [hjoin]; simp) hname

/-- A text ends as the name at its end does. -/
theorem not_slash_append {name : String} (front : String) (hname : name ≠ "") (hslash : '/' ∉ name.toList) :
    (front ++ name).toList.getLast? ≠ some '/' := by
  intro h
  have hne : name.toList ≠ [] := fun h => hname (String.toList_eq_nil_iff.1 h)
  rw [String.toList_append, List.getLast?_append, List.getLast?_eq_some_getLast hne] at h
  exact hslash (Option.some.inj h ▸ List.getLast_mem hne)

/-- A path that is joined from a name ends as the name does. -/
theorem not_slash_join {name : String} (parent : String) (hname : name ≠ "") (hslash : '/' ∉ name.toList) :
    (join parent name).toList.getLast? ≠ some '/' := by
  by_cases hparent : parent.toList.getLast? = some '/'
  · rw [join_of_slash hparent]
    exact not_slash_append parent hname hslash
  · rw [join_of_no_slash hparent]
    exact not_slash_append (parent ++ "/") hname hslash

/-- The path of the root is joined only from the empty name. -/
theorem name_eq_empty_of_join {parent name : String} (h : join parent name = "/") : name = "" := by
  have hlen : (join parent name).toList.length = 1 := by rw [h]; decide
  rw [← String.toList_eq_nil_iff, ← List.length_eq_zero_iff]
  by_cases hslash : parent.toList.getLast? = some '/'
  · have hpos := List.length_pos_of_mem (List.mem_of_getLast? hslash)
    rw [join_of_slash hslash, String.toList_append, List.length_append] at hlen
    omega
  · rw [join_of_no_slash hslash] at hlen
    simp only [String.toList_append, List.length_append, show "/".toList.length = 1 by decide] at hlen
    omega

end DeviceTree.Path
