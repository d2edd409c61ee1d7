import DeviceTree.Proofs.TextList
import DeviceTree.SourceText

/-!
# What is shown of a value

A value is shown in one of four forms, and the form has the whole value (`Property.value_form`). A form is shown as its
items one after the other, and the items are told apart by where they end: a text by its quotation mark, a number by its
width (`SelfDelimiting`). So two values are shown alike only if a quotation mark inside a text is taken for the one that
ends it.

* `value_eq_of_ofForm`: values without that byte that are shown alike are the same.
-/

namespace DeviceTree

section Reading

variable {α β : Type}

/-- Two runs of items of one kind, each ended by an item of another kind, are told apart. -/
theorem append_cons_inj {p : α → Prop} {a b s t : List α} {x y : α} (ha : ∀ c ∈ a, p c) (hb : ∀ c ∈ b, p c)
    (hx : ¬p x) (hy : ¬p y) (h : a ++ x :: s = b ++ y :: t) : a = b ∧ x = y ∧ s = t := by
  induction a generalizing b with
  | nil =>
    cases b with
    | nil => exact ⟨rfl, List.cons.inj h⟩
    | cons d b => exact absurd ((List.cons.inj h).1 ▸ hb d List.mem_cons_self) hx
  | cons c a ih =>
    cases b with
    | nil => exact absurd ((List.cons.inj h).1 ▸ ha c List.mem_cons_self) hy
    | cons d b =>
      obtain ⟨rfl, hmore⟩ := List.cons.inj h
      obtain ⟨rfl, hrest⟩ := ih (fun c hc => ha c (.tail _ hc)) (fun c hc => hb c (.tail _ hc)) hmore
      exact ⟨rfl, hrest⟩

/-- Two runs are told apart by the first of an item that is in neither. -/
theorem append_sep_inj {a b s t : List α} {x : α} (ha : x ∉ a) (hb : x ∉ b) (h : a ++ x :: s = b ++ x :: t) :
    a = b ∧ s = t := by
  have hne {l : List α} (hl : x ∉ l) : ∀ c ∈ l, c ≠ x := fun c hc he => hl (he ▸ hc)
  obtain ⟨hab, -, hst⟩ := append_cons_inj (hne ha) (hne hb) (fun h => h rfl) (fun h => h rfl) h
  exact ⟨hab, hst⟩

/-- What is shown of such items tells them, whatever follows. -/
def SelfDelimiting (shown : α → List β) (p : α → Prop) : Prop :=
  ∀ x y, p x → p y → ∀ s t, shown x ++ s = shown y ++ t → x = y ∧ s = t

variable {shown : α → List β} {p : α → Prop}

theorem SelfDelimiting.of_length {n : Nat} (hlen : ∀ x, p x → (shown x).length = n)
    (hinj : ∀ x y, p x → p y → shown x = shown y → x = y) : SelfDelimiting shown p := by
  intro x y hx hy s t h
  obtain ⟨hshown, hrest⟩ := List.append_inj h ((hlen x hx).trans (hlen y hy).symm)
  exact ⟨hinj x y hx hy hshown, hrest⟩

/-- Nor do items hide in one another with a separator between them. -/
theorem SelfDelimiting.intercalate (h : SelfDelimiting shown p) (hne : ∀ x, shown x ≠ []) {sep : List β}
    (hsep : sep ≠ []) {xs ys : List α} (hxs : ∀ x ∈ xs, p x) (hys : ∀ y ∈ ys, p y)
    (heq : sep.intercalate (xs.map shown) = sep.intercalate (ys.map shown)) : xs = ys := by
  -- the first item is at the front, and behind it nothing, or the separator
  have hfront (x : α) (xs : List α) : sep.intercalate ((x :: xs).map shown) =
      shown x ++ if xs = [] then [] else sep ++ sep.intercalate (xs.map shown) := by
    cases xs <;> simp
  induction xs generalizing ys with
  | nil =>
    cases ys with
    | nil => rfl
    | cons y ys =>
      rw [hfront, List.map_nil, List.intercalate_nil] at heq
      exact absurd (List.append_eq_nil_iff.1 heq.symm).1 (hne y)
  | cons x xs ih =>
    cases ys with
    | nil =>
      rw [hfront, List.map_nil, List.intercalate_nil] at heq
      exact absurd (List.append_eq_nil_iff.1 heq).1 (hne x)
    | cons y ys =>
      obtain ⟨hx, hmore⟩ := List.forall_mem_cons.1 hxs
      obtain ⟨hy, hmore'⟩ := List.forall_mem_cons.1 hys
      rw [hfront, hfront] at heq
      obtain ⟨rfl, hrest⟩ := h x y hx hy _ _ heq
      by_cases hnil : xs = [] <;> by_cases hnil' : ys = []
      · rw [hnil, hnil']
      · simp [hnil, hnil', hsep] at hrest
      · simp [hnil, hnil', hsep] at hrest
      · rw [if_neg hnil, if_neg hnil'] at hrest
        rw [ih hmore hmore' (List.append_cancel_left hrest)]

end Reading

/-! ## Numbers -/

namespace Hex

theorem digitChar_inj {m n : Nat} (hm : m < 16) (hn : n < 16) (h : Nat.digitChar m = Nat.digitChar n) : m = n := by
  have hall : ∀ m < 16, ∀ n < 16, Nat.digitChar m = Nat.digitChar n → m = n := by decide
  exact hall m hm n hn h

/-- Two digits to a byte tell a number of so many bytes. -/
theorem digits_inj (width : Nat) {m n : Nat} (hm : m < BigEndian.limit width) (hn : n < BigEndian.limit width)
    (h : digits (2 * width) m = digits (2 * width) n) : m = n := by
  induction width generalizing m n with
  | zero =>
    rw [BigEndian.limit] at hm hn
    omega
  | succ width ih =>
    have hlast (k : Nat) : digits (2 * (width + 1)) k =
        digits (2 * width) (k / 16 / 16) ++ [Nat.digitChar (k / 16 % 16), Nat.digitChar (k % 16)] := by
      rw [Nat.mul_succ, digits, digits, List.append_assoc]
      rfl
    rw [BigEndian.limit_succ] at hm hn
    rw [hlast, hlast] at h
    obtain ⟨hfront, htwo⟩ := List.append_inj h (by rw [length_digits, length_digits])
    have hdiv := ih (by omega) (by omega) hfront
    have hhigh := digitChar_inj (by omega) (by omega) (List.cons.inj htwo).1
    have hlow := digitChar_inj (by omega) (by omega) (List.cons.inj (List.cons.inj htwo).2).1
    omega

theorem mem_digits {width n : Nat} {c : Char} (h : c ∈ digits width n) : ∃ d < 16, c = Nat.digitChar d := by
  induction width generalizing n with
  | zero => cases h
  | succ width ih =>
    rcases List.mem_append.1 h with h | h
    · exact ih h
    · exact ⟨n % 16, Nat.mod_lt n (by decide), List.mem_singleton.1 h⟩

end Hex

/-! ## The value in a form -/

/-- The bytes that are shown in the form. -/
def ValueForm.value : ValueForm → Bytes
  | .empty => []
  | .texts ts => Property.entries ts
  | .words ws => ws.flatten
  | .bytes bs => bs

namespace Property

variable {p q : Property} {value : Bytes}

theorem flatten_quads (h : value.length % 4 = 0) : (quads value).flatten = value := by
  fun_induction quads value with
  | case1 a b c d rest ih =>
    simp only [List.length_cons] at h
    rw [List.flatten_cons, ih (by omega)]
    rfl
  | case2 value hshort =>
    match value, hshort, h with
    | [], _, _ => rfl
    | [_], _, h => cases h
    | [_, _], _, h => cases h
    | [_, _, _], _, h => cases h
    | a :: b :: c :: d :: rest, hshort, _ => exact absurd rfl (hshort a b c d rest)

theorem length_of_mem_quads {w : Bytes} (h : w ∈ quads value) : w.length = 4 := by
  fun_induction quads value with
  | case1 a b c d rest ih =>
    rcases List.mem_cons.1 h with rfl | h
    · rfl
    · exact ih h
  | case2 => cases h

/-- ASCII characters are their own bytes. -/
theorem exists_encode_of_ascii (h : ∀ b ∈ value, b < 128) : ∃ text, value = Utf8.encode text := by
  refine ⟨String.ofList (value.map fun b => Char.ofNat b.toNat), ?_⟩
  rw [Utf8.encode, String.toList_ofList, List.flatMap_map]
  induction value with
  | nil => rfl
  | cons b value ih =>
    obtain ⟨hb, hvalue⟩ := List.forall_mem_cons.1 h
    rw [List.flatMap_cons, Utf8.encodeChar_of_ascii (UInt8.lt_iff_toNat_lt.1 hb), ← ih hvalue]
    rfl

theorem isTextByte_lt {b : UInt8} (h : isTextByte b = true) : b < 128 := by
  simp only [isTextByte, Bool.or_eq_true, Bool.and_eq_true, decide_eq_true_eq, beq_iff_eq] at h
  rcases h with ⟨-, h⟩ | rfl
  · exact UInt8.lt_of_le_of_lt h (by decide)
  · decide

/-- A value that is shown as texts is its texts, one after the other, each with a NUL. -/
theorem value_of_showsAsTexts (h : showsAsTexts p.value = true) : p.value = entries p.texts := by
  simp only [showsAsTexts, Bool.and_eq_true, List.all_eq_true, beq_iff_eq] at h
  obtain ⟨⟨⟨hbytes, hlast⟩, -⟩, -⟩ := h
  obtain ⟨-, rest, hvalue, hnone⟩ := (lists_iff.2 rfl : Lists p.value p.texts).value_eq
  cases hrest : rest.getLast? with
  | none =>
    obtain rfl := List.getLast?_eq_none_iff.1 hrest
    rw [List.append_nil] at hvalue
    exact hvalue
  | some b =>
    -- a NUL ends what is left, so a text stands there
    have hb : p.value.getLast? = some b := by rw [hvalue, List.getLast?_append, hrest, Option.some_or]
    obtain rfl : b = 0 := Option.some.inj (hb.symm.trans hlast)
    cases hfront : rest.untilNul? with
    | none => exact absurd (List.mem_of_getLast? hrest) (Bytes.untilNul?_eq_none_iff.1 hfront)
    | some split =>
      obtain ⟨front, after⟩ := split
      obtain ⟨rfl, hnul⟩ := Bytes.untilNul?_eq_some_iff.1 hfront
      have hascii : ∀ b ∈ front, b < 128 := fun b hb => isTextByte_lt (hbytes b (by rw [hvalue]; simp [hb]))
      obtain ⟨text, rfl⟩ := exists_encode_of_ascii hascii
      have hsome : nextText? (Utf8.encode text ++ 0 :: after) = some (text, after) :=
        nextText?_eq_some_iff.2 ⟨rfl, fun hmem => hnul (Utf8.zero_mem_encode_iff.2 hmem)⟩
      rw [hsome] at hnone
      cases hnone

theorem value_form (p : Property) : p.form.value = p.value := by
  unfold form
  split
  · rename_i h
    exact h.symm
  · split
    · rename_i h
      exact (value_of_showsAsTexts h).symm
    · split
      · rename_i h
        exact flatten_quads h
      · rfl

/-- The bytes of the texts of a value are bytes of the value. -/
theorem mem_value_of_mem_texts {text : String} {c : Char} {b : UInt8} (ht : text ∈ p.texts) (hc : c ∈ text.toList)
    (hb : b ∈ String.utf8EncodeChar c) : b ∈ p.value := by
  obtain ⟨-, rest, hvalue, -⟩ := (lists_iff.2 rfl : Lists p.value p.texts).value_eq
  rw [hvalue]
  refine List.mem_append_left _ (List.mem_flatMap.2 ⟨text, ht, List.mem_append_left _ ?_⟩)
  exact List.mem_flatMap.2 ⟨c, hc, hb⟩

end Property

namespace SourceText

/-! ## Items -/

/-- A text in quotation marks. -/
def quoted (text : String) : List Char :=
  '"' :: text.toList ++ ['"']

/-- A 32-bit word in hexadecimal. -/
def hexWord (w : Bytes) : List Char :=
  '0' :: 'x' :: Hex.digits 8 (BigEndian.value w)

/-- A byte in hexadecimal. -/
def hexByte (b : UInt8) : List Char :=
  Hex.digits 2 b.toNat

theorem quoted_selfDelimiting : SelfDelimiting quoted fun text => '"' ∉ text.toList := by
  intro x y hx hy s t h
  have h : x.toList ++ '"' :: s = y.toList ++ '"' :: t := by simpa [quoted] using h
  obtain ⟨htext, hrest⟩ := append_sep_inj hx hy h
  exact ⟨String.toList_inj.1 htext, hrest⟩

theorem hexWord_selfDelimiting : SelfDelimiting hexWord fun w => w.length = 4 := by
  refine SelfDelimiting.of_length (n := 10) (fun w _ => by simp [hexWord]) fun w w' hw hw' h => ?_
  have hlt {w : Bytes} (hw : w.length = 4) : BigEndian.value w < BigEndian.limit 4 := hw ▸ BigEndian.value_lt w
  have hvalue := Hex.digits_inj 4 (hlt hw) (hlt hw') (List.cons.inj (List.cons.inj h).2).2
  rw [← BigEndian.encode_value w, ← BigEndian.encode_value w', hvalue, hw, hw']

theorem hexByte_selfDelimiting : SelfDelimiting hexByte fun _ => True := by
  refine SelfDelimiting.of_length (n := 2) (fun b _ => by simp [hexByte]) fun b b' _ _ h => ?_
  exact UInt8.toNat_inj.1 (Hex.digits_inj 1 b.toNat_lt b'.toNat_lt h)

/-! ## Forms -/

/-- The form does not hide where its items end. -/
def Plain : ValueForm → Prop
  | .texts texts => texts ≠ [] ∧ ∀ text ∈ texts, '"' ∉ text.toList
  | .words words => ∀ w ∈ words, w.length = 4
  | _ => True

theorem plain_form {p : Property} (h : 0x22 ∉ p.value) : Plain p.form := by
  unfold Property.form
  split
  · trivial
  · split
    · rename_i hne htexts
      refine ⟨fun hnil => hne ?_, fun text ht hmem => h (Property.mem_value_of_mem_texts ht hmem (by decide))⟩
      rw [Property.value_of_showsAsTexts htexts, hnil]
      rfl
    · split
      · exact fun w hw => Property.length_of_mem_quads hw
      · trivial

theorem toList_ofForm_texts (texts : List String) :
    (ofForm (.texts texts)).toList = ' ' :: '=' :: ' ' :: ", ".toList.intercalate (texts.map quoted) := by
  simp [ofForm, Function.comp_def]
  rfl

theorem toList_ofForm_words (words : List Bytes) :
    (ofForm (.words words)).toList =
      ' ' :: '=' :: ' ' :: '<' :: (" ".toList.intercalate (words.map hexWord) ++ ['>']) := by
  simp [ofForm, Hex.padded, Function.comp_def]
  rfl

theorem toList_ofForm_bytes (bytes : Bytes) :
    (ofForm (.bytes bytes)).toList =
      ' ' :: '=' :: ' ' :: '[' :: (" ".toList.intercalate (bytes.map hexByte) ++ [']']) := by
  simp [ofForm, Hex.padded, Function.comp_def]
  rfl

/-- The mark behind the equals sign. -/
def mark? : ValueForm → Option Char
  | .empty => none
  | .texts _ => some '"'
  | .words _ => some '<'
  | .bytes _ => some '['

theorem mark_ofForm {f : ValueForm} (h : Plain f) : (ofForm f).toList[3]? = mark? f := by
  cases f with
  | empty => rfl
  | texts texts =>
    rw [toList_ofForm_texts]
    match texts, h.1 with
    | [_], _ => rfl
    | _ :: _ :: _, _ => rfl
  | words words => rw [toList_ofForm_words]; rfl
  | bytes bytes => rw [toList_ofForm_bytes]; rfl

theorem ofForm_inj {f g : ValueForm} (hf : Plain f) (hg : Plain g) (h : ofForm f = ofForm g) : f = g := by
  have hmark : mark? f = mark? g := by rw [← mark_ofForm hf, ← mark_ofForm hg, h]
  have hlist := congrArg String.toList h
  -- forms of two kinds differ in the mark
  cases f with
  | empty =>
    cases g with
    | empty => rfl
    | _ => cases hmark
  | texts texts =>
    cases g with
    | texts texts' =>
      rw [toList_ofForm_texts, toList_ofForm_texts] at hlist
      simp only [List.cons.injEq, true_and] at hlist
      rw [quoted_selfDelimiting.intercalate (fun _ => List.cons_ne_nil _ _) (by decide) hf.2 hg.2 hlist]
    | _ => cases hmark
  | words words =>
    cases g with
    | words words' =>
      rw [toList_ofForm_words, toList_ofForm_words] at hlist
      simp only [List.cons.injEq, true_and] at hlist
      rw [hexWord_selfDelimiting.intercalate (fun _ => List.cons_ne_nil _ _) (by decide) hf hg
        (List.append_cancel_right hlist)]
    | _ => cases hmark
  | bytes bytes =>
    cases g with
    | bytes bytes' =>
      rw [toList_ofForm_bytes, toList_ofForm_bytes] at hlist
      simp only [List.cons.injEq, true_and] at hlist
      have hne (b : UInt8) : hexByte b ≠ [] := List.ne_nil_of_length_pos (by simp [hexByte])
      rw [hexByte_selfDelimiting.intercalate hne (by decide) (fun _ _ => trivial) (fun _ _ => trivial)
        (List.append_cancel_right hlist)]
    | _ => cases hmark

/-- Values without a quotation mark that are shown alike are the same. -/
theorem value_eq_of_ofForm {p q : Property} (hp : 0x22 ∉ p.value) (hq : 0x22 ∉ q.value)
    (h : ofForm p.form = ofForm q.form) : p.value = q.value := by
  rw [← p.value_form, ← q.value_form, ofForm_inj (plain_form hp) (plain_form hq) h]

end SourceText
end DeviceTree
