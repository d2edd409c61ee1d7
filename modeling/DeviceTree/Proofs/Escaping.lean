import DeviceTree.Assembly.Literal
import DeviceTree.Proofs.Assembler
import DeviceTree.Proofs.Utf8

/-!
# Texts in literals

What stands in a literal is read from left to right (`Reads`): a backslash takes a quotation mark, a backslash or octal
digits with it, of digits as many as there are up to three; any other character stands for its own bytes; and a
quotation mark without a backslash ends the literal. There is one way to do this (`Reads.unique`). Since a byte that is
written in digits has all three of them, the form of a byte is read as the byte whatever follows (`reads_escape`), and
a text byte by byte.

* `escaped_exactly`: the form of a text is visible ASCII, in which every quotation mark is escaped, and between
  quotation marks it is read as the bytes of the text, so that two texts never have the same form.
-/

namespace DeviceTree.Literal

open Assembler (isOctal)

/-! ## Reading -/

/-- The octal digits that a backslash takes with it, and what is left: up to three digits, and fewer only if no other
one follows. -/
structure IsOctalRun (digits rest : List Char) : Prop where
  octal : ∀ d ∈ digits, isOctal d = true
  ne_nil : digits ≠ []
  length_le : digits.length ≤ 3
  longest : digits.length < 3 → ∀ c ∈ rest.head?, isOctal c = false

/-- Behind a backslash, the characters stand for this byte, and what is left. -/
inductive ReadsEscape : List Char → UInt8 → List Char → Prop where
  | sign {c : Char} (hc : c = '"' ∨ c = '\\') (rest : List Char) :
    ReadsEscape (c :: rest) (UInt8.ofNat c.toNat) rest
  | octal {digits rest : List Char} (h : IsOctalRun digits rest) :
    ReadsEscape (digits ++ rest) (UInt8.ofNat (Nat.ofDigitChars 8 digits 0)) rest

/-- Behind the quotation mark that begins a literal, the characters stand for these bytes up to the one that ends it,
and what is left behind that. -/
inductive Reads : List Char → Bytes → List Char → Prop where
  | close (rest : List Char) : Reads ('"' :: rest) [] rest
  | escape {cs cs' rest : List Char} {b : UInt8} {bs : Bytes} (hb : ReadsEscape cs b cs') (h : Reads cs' bs rest) :
    Reads ('\\' :: cs) (b :: bs) rest
  | plain {c : Char} {cs rest : List Char} {bs : Bytes} (hquote : c ≠ '"') (hbackslash : c ≠ '\\')
    (hnewline : c ≠ '\n') (h : Reads cs bs rest) : Reads (c :: cs) (String.utf8EncodeChar c ++ bs) rest

variable {digits digits' more cs rest rest' : List Char} {b b' : UInt8} {bs bs' : Bytes}

theorem ne_sign_of_isOctal {c : Char} (h : isOctal c = true) : c ≠ '"' ∧ c ≠ '\\' :=
  ⟨fun hc => absurd (hc ▸ h) (by decide), fun hc => absurd (hc ▸ h) (by decide)⟩

theorem IsOctalRun.eq_nil (h : IsOctalRun digits (more ++ rest)) (h' : IsOctalRun (digits ++ more) rest) :
    more = [] := by
  cases more with
  | nil => rfl
  | cons c more =>
    have hlength := h'.length_le
    rw [List.length_append, List.length_cons] at hlength
    have hend := h.longest (by omega) c rfl
    have hoctal := h'.octal c (by simp)
    rw [hend] at hoctal
    cases hoctal

theorem IsOctalRun.unique (h : IsOctalRun digits rest) (h' : IsOctalRun digits' rest')
    (heq : digits ++ rest = digits' ++ rest') : digits = digits' ∧ rest = rest' := by
  rcases List.append_eq_append_iff.1 heq with ⟨more, rfl, rfl⟩ | ⟨more, rfl, rfl⟩
  · obtain rfl := h.eq_nil h'
    exact ⟨(List.append_nil _).symm, rfl⟩
  · obtain rfl := h'.eq_nil h
    exact ⟨List.append_nil _, rfl⟩

/-- A sign is no digit, so it tells which of the two kinds of escapes it is. -/
theorem IsOctalRun.append_ne {c : Char} (h : IsOctalRun digits rest) (hc : c = '"' ∨ c = '\\') :
    digits ++ rest ≠ c :: rest' := by
  intro heq
  cases digits with
  | nil => exact h.ne_nil rfl
  | cons d digits =>
    obtain rfl := (List.cons.inj heq).1
    obtain ⟨hquote, hbackslash⟩ := ne_sign_of_isOctal (h.octal d (List.mem_cons_self ..))
    exact hc.elim hquote hbackslash

theorem ReadsEscape.unique (h : ReadsEscape cs b rest) (h' : ReadsEscape cs b' rest') : b = b' ∧ rest = rest' := by
  generalize heq : cs = cs' at h'
  cases h with
  | sign hc rest =>
    cases h' with
    | sign hc' rest' =>
      obtain ⟨rfl, rfl⟩ := List.cons.inj heq
      exact ⟨rfl, rfl⟩
    | octal hrun => exact absurd heq.symm (hrun.append_ne hc)
  | octal hrun =>
    cases h' with
    | sign hc' rest' => exact absurd heq (hrun.append_ne hc')
    | octal hrun' =>
      obtain ⟨rfl, rfl⟩ := hrun.unique hrun' heq
      exact ⟨rfl, rfl⟩

theorem Reads.unique (h : Reads cs bs rest) (h' : Reads cs bs' rest') : bs = bs' ∧ rest = rest' := by
  induction h generalizing bs' with
  | close =>
    cases h' with
    | close => exact ⟨rfl, rfl⟩
    | plain hquote => exact absurd rfl hquote
  | escape hb _ ih =>
    cases h' with
    | escape hb' hmore' =>
      obtain ⟨rfl, rfl⟩ := hb.unique hb'
      obtain ⟨rfl, rfl⟩ := ih hmore'
      exact ⟨rfl, rfl⟩
    | plain _ hbackslash => exact absurd rfl hbackslash
  | plain hquote hbackslash _ _ ih =>
    cases h' with
    | close => exact absurd rfl hquote
    | escape => exact absurd rfl hbackslash
    | plain _ _ _ hmore' =>
      obtain ⟨rfl, rfl⟩ := ih hmore'
      exact ⟨rfl, rfl⟩

/-! ## The form of a byte -/

theorem isOctal_octalDigit (n : Nat) : isOctal (octalDigit n) = true := by
  have hall : ∀ k < 8, isOctal (Nat.digitChar k) = true := by decide
  exact hall (n % 8) (Nat.mod_lt n (by decide))

theorem toNat_octalDigit (n : Nat) : (octalDigit n).toNat - '0'.toNat = n % 8 := by
  have hall : ∀ k < 8, (Nat.digitChar k).toNat - '0'.toNat = k := by decide
  exact hall (n % 8) (Nat.mod_lt n (by decide))

theorem visible_of_isOctal {c : Char} (h : isOctal c = true) : ' ' ≤ c ∧ c ≤ '~' := by
  simp only [isOctal, Bool.and_eq_true, decide_eq_true_eq] at h
  exact ⟨Char.le_trans (by decide) h.1, Char.le_trans h.2 (by decide)⟩

/-- A byte is written as a sign behind a backslash, as a visible character or as a backslash and three digits. -/
theorem escape_cases (b : UInt8) :
    (∃ c, (c = '"' ∨ c = '\\') ∧ c.toNat = b.toNat ∧ escape b = ['\\', c]) ∨
    (∃ c, (c ≠ '"' ∧ c ≠ '\\') ∧ (' ' ≤ c ∧ c ≤ '~') ∧ String.utf8EncodeChar c = [b] ∧ escape b = [c]) ∨
    (∃ digits, digits.length = 3 ∧ (∀ d ∈ digits, isOctal d = true) ∧ Nat.ofDigitChars 8 digits 0 = b.toNat ∧
      escape b = '\\' :: digits) := by
  have hlt := b.toNat_lt
  unfold escape
  dsimp only
  split
  · rename_i h
    refine .inl ⟨Char.ofNat b.toNat, ?_, Utf8.toNat_charOfNat (.inl (by omega)), rfl⟩
    rcases h with h | h
    · exact .inl (congrArg Char.ofNat h)
    · exact .inr (congrArg Char.ofNat h)
  · rename_i hsign
    rw [not_or] at hsign
    split
    · rename_i h
      have hval : (Char.ofNat b.toNat).val.toNat = b.toNat := Utf8.toNat_charOfNat (.inl (by omega))
      have hne (c : Char) (hc : b.toNat ≠ c.val.toNat) : Char.ofNat b.toNat ≠ c := fun heq => hc (heq ▸ hval.symm)
      have hvisible : ' ' ≤ Char.ofNat b.toNat ∧ Char.ofNat b.toNat ≤ '~' := by
        rw [Char.le_def, Char.le_def, UInt32.le_iff_toNat_le, UInt32.le_iff_toNat_le, hval]
        exact h
      exact .inr (.inl ⟨Char.ofNat b.toNat, ⟨hne '"' hsign.1, hne '\\' hsign.2⟩, hvisible,
        Utf8.encodeChar_of_ascii (by omega), rfl⟩)
    · refine .inr (.inr ⟨_, rfl, ?_, ?_, rfl⟩)
      · intro d hd
        simp only [List.mem_cons, List.not_mem_nil, or_false] at hd
        rcases hd with rfl | rfl | rfl <;> exact isOctal_octalDigit _
      · simp only [Nat.ofDigitChars_cons, Nat.ofDigitChars_nil, toNat_octalDigit]
        omega

theorem visible_of_mem_escape {c : Char} (h : c ∈ escape b) : ' ' ≤ c ∧ c ≤ '~' := by
  rcases escape_cases b with ⟨d, hd, -, hform⟩ | ⟨d, -, hvisible, -, hform⟩ | ⟨digits, -, hoctal, -, hform⟩
  · rw [hform, List.mem_cons, List.mem_singleton] at h
    rcases h with rfl | rfl
    · decide
    · rcases hd with rfl | rfl <;> decide
  · rw [hform, List.mem_singleton] at h
    exact h ▸ hvisible
  · rw [hform, List.mem_cons] at h
    rcases h with rfl | h
    · decide
    · exact visible_of_isOctal (hoctal c h)

/-- In the form of a byte, only a backslash stands in front of a quotation mark. -/
theorem front_eq_of_escape {front : List Char} (h : escape b = front ++ '"' :: rest) : front = ['\\'] := by
  have hmem : '"' ∈ escape b := by simp [h]
  rcases escape_cases b with ⟨c, -, -, hform⟩ | ⟨c, hne, -, -, hform⟩ | ⟨digits, -, hoctal, -, hform⟩
  · rw [hform] at h
    cases front with
    | nil => cases (List.cons.inj h).1
    | cons d front =>
      obtain ⟨rfl, h⟩ := List.cons.inj h
      cases front with
      | nil => rfl
      | cons e front => cases front <;> cases (List.cons.inj h).2
  · rw [hform, List.mem_singleton] at hmem
    exact absurd hmem.symm hne.1
  · rw [hform, List.mem_cons] at hmem
    rcases hmem with hmem | hmem
    · cases hmem
    · exact absurd rfl (ne_sign_of_isOctal (hoctal '"' hmem)).1

/-- The form of a byte is read as the byte, whatever follows. Where it has digits, they are three, and a digit that
follows is no longer one of them. -/
theorem reads_escape (b : UInt8) (h : Reads cs bs rest) : Reads (escape b ++ cs) (b :: bs) rest := by
  rcases escape_cases b with
    ⟨c, hc, hval, hform⟩ | ⟨c, hne, hvisible, hbytes, hform⟩ | ⟨digits, hlength, hoctal, hval, hform⟩
  · have hbyte : UInt8.ofNat c.toNat = b := by rw [hval, UInt8.ofNat_toNat]
    rw [hform, ← hbyte]
    exact .escape (.sign hc cs) h
  · have hnewline : c ≠ '\n' := by
      rintro rfl
      exact absurd hvisible (by decide)
    have hread := Reads.plain hne.1 hne.2 hnewline h
    rw [hbytes] at hread
    rw [hform]
    exact hread
  · have hrun : IsOctalRun digits cs :=
      ⟨hoctal, List.ne_nil_of_length_pos (by omega), Nat.le_of_eq hlength, fun hlt => absurd hlength (by omega)⟩
    have hbyte : UInt8.ofNat (Nat.ofDigitChars 8 digits 0) = b := by rw [hval, UInt8.ofNat_toNat]
    rw [hform, ← hbyte]
    exact .escape (.octal hrun) h

/-! ## The form of a text -/

/-- How many backslashes the characters end in. -/
def backslashes (front : List Char) : Nat :=
  (front.reverse.takeWhile (· = '\\')).length

theorem backslashes_concat (front : List Char) (c : Char) :
    backslashes (front ++ [c]) = if c = '\\' then backslashes front + 1 else 0 := by
  unfold backslashes
  rw [List.reverse_concat, List.takeWhile_cons]
  by_cases h : c = '\\' <;> simp [h]

/-- Backslashes that take one another pair up, and any other form ends in something else. -/
theorem backslashes_escape {front : List Char} (h : backslashes front % 2 = 0) (b : UInt8) :
    backslashes (front ++ escape b) % 2 = 0 := by
  rcases escape_cases b with ⟨c, hc, -, hform⟩ | ⟨c, hne, -, -, hform⟩ | ⟨digits, hlength, hoctal, -, hform⟩
  · have happend : front ++ ['\\', c] = front ++ ['\\'] ++ [c] := by simp
    rw [hform, happend, backslashes_concat, backslashes_concat, if_pos rfl]
    rcases hc with rfl | rfl
    · rfl
    · rw [if_pos rfl]
      omega
  · rw [hform, backslashes_concat, if_neg hne.2]
  · rcases List.eq_nil_or_concat digits with rfl | ⟨init, d, rfl⟩
    · cases hlength
    · have hne : d ≠ '\\' := (ne_sign_of_isOctal (hoctal d (by simp))).2
      have happend : front ++ '\\' :: init.concat d = front ++ '\\' :: init ++ [d] := by simp
      rw [hform, happend, backslashes_concat, if_neg hne]

theorem backslashes_of_quote {before front : List Char} (hbefore : backslashes before % 2 = 0)
    (h : bs.flatMap escape = front ++ '"' :: rest) : backslashes (before ++ front) % 2 = 1 := by
  -- Over the bytes: the forms of those in front end in an even number of backslashes.
  induction bs generalizing before front with
  | nil => simp at h
  | cons b bs ih =>
    rw [List.flatMap_cons] at h
    -- The quotation mark stands behind the form of this byte or inside it.
    rcases List.append_eq_append_iff.1 h with ⟨more, rfl, hmore⟩ | ⟨more, hb, hmore⟩
    · rw [← List.append_assoc]
      exact ih (backslashes_escape hbefore b) hmore
    · cases more with
      | nil =>
        rw [List.append_nil] at hb
        rw [← hb, ← List.append_nil (before ++ escape b)]
        exact ih (backslashes_escape hbefore b) hmore.symm
      | cons c more =>
        obtain ⟨rfl, -⟩ := List.cons.inj hmore
        obtain rfl := front_eq_of_escape hb
        rw [backslashes_concat, if_pos rfl]
        omega

theorem reads_escaped (s : String) (rest : List Char) : Reads (escaped s ++ '"' :: rest) (Utf8.encode s) rest := by
  unfold escaped
  induction Utf8.encode s with
  | nil => exact .close rest
  | cons b bs ih =>
    rw [List.flatMap_cons, List.append_assoc]
    exact reads_escape b ih

/-- The form of a text has visible ASCII characters only, and every quotation mark in it has an odd number of
backslashes in front, so that the last of them is its own. Between quotation marks, and whatever follows them, the form
is read as the bytes of the text, and the reading ends at the closing mark, neither earlier nor later. So no two texts
have the same form. -/
theorem escaped_exactly (s : String) :
    (∀ c ∈ escaped s, ' ' ≤ c ∧ c ≤ '~') ∧
    (∀ front rest, escaped s = front ++ '"' :: rest → backslashes front % 2 = 1) ∧
    (∀ rest bs after, Reads (escaped s ++ '"' :: rest) bs after ↔ bs = Utf8.encode s ∧ after = rest) ∧
    (∀ t, escaped t = escaped s → t = s) := by
  refine ⟨fun c hc => ?_, fun front rest h => ?_, fun rest bs after => ⟨fun h => ?_, ?_⟩, fun t h => ?_⟩
  · obtain ⟨b, -, hb⟩ := List.mem_flatMap.1 hc
    exact visible_of_mem_escape hb
  · have hempty : backslashes [] % 2 = 0 := rfl
    exact backslashes_of_quote hempty h
  · exact h.unique (reads_escaped s rest)
  · rintro ⟨rfl, rfl⟩
    exact reads_escaped s after
  · have ht := reads_escaped t []
    rw [h] at ht
    have hbytes := (ht.unique (reads_escaped s [])).1
    calc
      t = Utf8.lossy (Utf8.encode t) := (Utf8.lossy_encode t).symm
      _ = Utf8.lossy (Utf8.encode s) := by rw [hbytes]
      _ = s := Utf8.lossy_encode s

/-- The last digit of `\0011` stands for itself, so this is not read as a tab, which is written `\011`, and the literal
ends where the text does. A quotation mark that a backslash of the text precedes has three of them in front. -/
theorem escaped_exactly_digit :
    (escaped "\x011" = ['\\', '0', '0', '1', '1'] ∧ ' ' ≤ '1' ∧ '1' ≤ '~') ∧
    Reads (['\\', '0', '0', '1', '1'] ++ '"' :: ['1', '"']) [1, 0x31] ['1', '"'] ∧ escaped "\x011" ≠ escaped "\t" ∧
    escaped "\\\"" = ['\\', '\\', '\\'] ++ '"' :: [] ∧ backslashes ['\\', '\\', '\\'] % 2 = 1 :=
  have hform : escaped "\x011" = ['\\', '0', '0', '1', '1'] := by decide
  have hquote : escaped "\\\"" = ['\\', '\\', '\\'] ++ '"' :: [] := by decide
  ⟨⟨hform, (escaped_exactly "\x011").1 '1' (by decide)⟩,
    ((escaped_exactly "\x011").2.2.1 ['1', '"'] _ _).2 ⟨by decide, rfl⟩,
    fun h => absurd ((escaped_exactly "\t").2.2.2 _ h) (by decide),
    hquote, (escaped_exactly "\\\"").2.1 _ [] hquote⟩

end DeviceTree.Literal
