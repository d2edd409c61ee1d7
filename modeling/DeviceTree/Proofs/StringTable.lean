import DeviceTree.Proofs.Format
import DeviceTree.Proofs.Utf8
import DeviceTree.StringTable

/-!
# Names in the string block

The block has as many bytes as the table says (`length_toBytes`), a table holds the names it was made of
(`mem_ofList`), and every one of them without a NUL stands where the table says (`nameAt_offset`). The last is
by induction on the names, the earlier of which take up the offset.

* `exists_lost_name`: a block that is cut short has lost a name.
-/

namespace DeviceTree.StringTable

/-- The bytes of a name in the block. -/
theorem length_entry (name : String) : (Utf8.encode name ++ [0]).length = entrySize name := by
  rw [List.length_append, Utf8.length_encode]
  rfl

theorem length_toBytes (t : StringTable) : t.toBytes.length = t.size := by
  unfold toBytes size
  induction t.names with
  | nil => rfl
  | cons name names ih => rw [List.flatMap_cons, List.length_append, length_entry, ih, span_cons]

theorem mem_foldl_insert {name : String} (names : List String) (t : StringTable) :
    name ∈ (names.foldl insert t).names ↔ name ∈ t.names ∨ name ∈ names := by
  induction names generalizing t with
  | nil => simp
  | cons n names ih => rw [List.foldl_cons, ih, mem_insert, List.mem_cons, or_assoc]

theorem mem_ofList {name : String} {names : List String} : name ∈ (ofList names).names ↔ name ∈ names := by
  rw [ofList, mem_foldl_insert]
  simp

theorem drop_entries {name : String} (names : List String) (h : name ∈ names) :
    ∃ rest, (names.flatMap fun name => Utf8.encode name ++ [0]).drop (span (names.takeWhile (· != name))) =
      Utf8.encode name ++ 0 :: rest := by
  induction names with
  | nil => exact absurd h List.not_mem_nil
  | cons n names ih =>
    by_cases hn : n = name
    · subst hn
      exact ⟨names.flatMap fun name => Utf8.encode name ++ [0], by simp⟩
    · obtain ⟨rest, hrest⟩ := ih ((List.mem_cons.1 h).resolve_left (Ne.symm hn))
      refine ⟨rest, ?_⟩
      rw [List.takeWhile_cons, if_pos (by simpa using hn), List.flatMap_cons, span_cons, ← length_entry,
        List.drop_length_add_append]
      exact hrest

theorem nameAt_offset {t : StringTable} {name : String} (hname : name ∈ t.names) (hnul : '\x00' ∉ name.toList) :
    Format.NameAt t.toBytes (t.offset name) name := by
  obtain ⟨rest, hrest⟩ := drop_entries t.names hname
  exact ⟨rest, hrest, fun h => hnul (Utf8.zero_mem_encode_iff.1 h)⟩

/-! ## A block that is cut short -/

theorem nodup_insert {t : StringTable} (h : t.names.Nodup) (name : String) : (t.insert name).names.Nodup := by
  unfold insert
  split
  · exact h
  · rename_i hname
    exact List.nodup_append.2 ⟨h, by simp, fun a ha b hb hab => by simp_all⟩

theorem nodup_ofList (names : List String) : (ofList names).names.Nodup := by
  have hfold : ∀ t : StringTable, t.names.Nodup → (names.foldl insert t).names.Nodup := by
    induction names with
    | nil => exact fun _ h => h
    | cons name names ih => exact fun t h => ih _ (nodup_insert h name)
  exact hfold {} List.nodup_nil

/-- The last name that came in ends the block. -/
theorem offset_last {names : List String} {last : String} (h : last ∉ names) :
    offset ⟨names ++ [last]⟩ last = (toBytes ⟨names⟩).length := by
  have hwhile : (names ++ [last]).takeWhile (· != last) = names := by
    rw [List.takeWhile_append_of_pos fun a ha => by simpa using fun he : a = last => h (he ▸ ha)]
    simp
  rw [offset, hwhile, length_toBytes]
  rfl

/-- Of a block that is cut short the last name is lost: no NUL comes after the place where it started. -/
theorem exists_lost_name {t : StringTable} (hnodup : t.names.Nodup) (hnul : ∀ name ∈ t.names, '\x00' ∉ name.toList)
    {k : Nat} (hk : k < t.toBytes.length) :
    ∃ name ∈ t.names, ∀ other, ¬Format.NameAt (t.toBytes.take k) (t.offset name) other := by
  obtain ⟨names⟩ := t
  rcases List.eq_nil_or_concat names with rfl | ⟨front, last, rfl⟩
  · exact absurd hk (Nat.not_lt_zero k)
  rw [List.concat_eq_append] at hnodup hnul hk ⊢
  have hlast : last ∉ front := fun h => (List.nodup_append.1 hnodup).2.2 last h last (by simp) rfl
  have hbytes : toBytes ⟨front ++ [last]⟩ = toBytes ⟨front⟩ ++ (Utf8.encode last ++ [0]) := by
    simp [toBytes]
  refine ⟨last, by simp, fun other h => ?_⟩
  obtain ⟨rest, hrest, -⟩ := h
  rw [hbytes, List.length_append, List.length_append, List.length_singleton] at hk
  rw [offset_last hlast, List.drop_take, hbytes, List.drop_left, List.take_append_of_le_length (by omega)] at hrest
  have hmem : 0 ∈ (Utf8.encode last).take (k - (toBytes ⟨front⟩).length) := by
    rw [hrest]
    simp
  exact hnul last (by simp) (Utf8.zero_mem_encode_iff.1 (List.mem_of_mem_take hmem))

end DeviceTree.StringTable
