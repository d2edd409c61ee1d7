import DeviceTree.NodeName

/-!
# Regular names

The characters of a regular name as lists of characters, and what a regular name is without a search for its last `@`.

* `isRegular_iff`: the search comes to the same.
-/

namespace DeviceTree

namespace NodeName

/-- The characters that a regular name may have, but for the unit address and its mark. -/
def baseChars : List Char :=
  "abcdefghijklmnopqrstuvwxyzABCDEFGHIJKLMNOPQRSTUVWXYZ0123456789,._+*#?-".toList

/-- The characters that a unit address may have. -/
def addressChars : List Char :=
  "0123456789abcdef,".toList

/-- The name has the characters of a base name, and, if there is an `@` in it, behind the last one those of a unit
address. -/
def Regular (name : String) : Prop :=
  ('@' ∉ name.toList ∧ ∀ c ∈ name.toList, c ∈ baseChars) ∨
    ∃ base address, name = base ++ "@" ++ address ∧ '@' ∉ address.toList ∧ (∀ c ∈ base.toList, c ∈ baseChars) ∧
      ∀ c ∈ address.toList, c ∈ addressChars

theorem toNat_lt_of_isAlphanum {c : Char} (h : c.isAlphanum = true) : c.toNat < 128 := by
  change ((decide (65 ≤ c.toNat ∧ c.toNat ≤ 90) || (decide (97 ≤ c.toNat) && decide (c.toNat ≤ 122))) ||
    (decide (48 ≤ c.toNat) && decide (c.toNat ≤ 57))) = true at h
  simp only [Bool.or_eq_true, Bool.and_eq_true, decide_eq_true_eq] at h
  omega

/-- A class of ASCII characters is a list of them, if it is for the 128 that there are. -/
theorem mem_iff_of_ascii {chars : List Char} {p : Char → Bool} (hchars : chars.all p = true)
    (hascii : ∀ n < 128, p (Char.ofNat n) = true → Char.ofNat n ∈ chars) (hlt : ∀ c, p c = true → c.toNat < 128)
    {c : Char} : c ∈ chars ↔ p c = true := by
  refine ⟨List.all_eq_true.1 hchars c, fun h => ?_⟩
  have hmem := hascii c.toNat (hlt c h)
  rw [Char.ofNat_toNat] at hmem
  exact hmem h

theorem mem_baseChars_iff {c : Char} : c ∈ baseChars ↔ isBaseChar c = true := by
  refine mem_iff_of_ascii (by decide) (by decide) fun c h => ?_
  rcases Bool.or_eq_true .. ▸ h with h | h
  · exact toNat_lt_of_isAlphanum h
  · have hmarks : [',', '.', '_', '+', '*', '#', '?', '-'].all (·.toNat < 128) = true := by decide
    exact of_decide_eq_true (List.all_eq_true.1 hmarks c (List.contains_iff_mem.1 h))

theorem mem_addressChars_iff {c : Char} : c ∈ addressChars ↔ isAddressChar c = true := by
  refine mem_iff_of_ascii (by decide) (by decide) fun c h => ?_
  simp only [isAddressChar, Bool.or_eq_true, Bool.and_eq_true, decide_eq_true_eq, beq_iff_eq] at h
  rcases h with (h | ⟨-, h⟩) | rfl
  · exact toNat_lt_of_isAlphanum (by rw [Char.isAlphanum, h, Bool.or_true])
  · exact Nat.lt_of_le_of_lt (show c.toNat ≤ 102 from h) (by decide)
  · decide

theorem isRegular_iff {name : String} : isRegular name = true ↔ Regular name := by
  unfold isRegular parts Regular
  simp only [mem_baseChars_iff, mem_addressChars_iff]
  cases hsplit : Split.splitLast? '@' name.toList with
  | none =>
    have hat := Split.splitLast?_eq_none_iff.1 hsplit
    simp only [Option.getD_none, List.all_nil, Bool.and_true, List.all_eq_true]
    refine ⟨fun h => .inl ⟨hat, h⟩, fun h => ?_⟩
    rcases h with ⟨-, h⟩ | ⟨base, address, rfl, -⟩
    · exact h
    · exact absurd (by simp) hat
  | some p =>
    obtain ⟨base, address⟩ := p
    obtain ⟨hname, haddress⟩ := Split.splitLast?_eq_some_iff.1 hsplit
    simp only [Option.getD_some, Bool.and_eq_true, List.all_eq_true]
    refine ⟨fun h => .inr ⟨String.ofList base, String.ofList address, ?_, ?_, ?_⟩, fun h => ?_⟩
    · rw [← String.toList_inj]
      simpa using hname
    · simpa using haddress
    · simpa using h
    · rcases h with ⟨hat, -⟩ | ⟨base', address', rfl, hat, h⟩
      · exact absurd (by rw [hname]; simp) hat
      · have hsplit' : Split.splitLast? '@' (base' ++ "@" ++ address').toList = some (base'.toList, address'.toList) :=
          Split.splitLast?_eq_some_iff.2 ⟨by simp, hat⟩
        rw [hsplit] at hsplit'
        obtain ⟨rfl, rfl⟩ := Prod.mk.inj (Option.some.inj hsplit')
        exact h

instance (name : String) : Decidable (Regular name) :=
  decidable_of_iff _ isRegular_iff

end NodeName
end DeviceTree
