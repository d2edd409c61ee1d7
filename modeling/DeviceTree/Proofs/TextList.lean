import DeviceTree.Property
import DeviceTree.Proofs.Utf8

/-!
# Values as lists of texts

A value is read as a list of texts by taking one text after the other off its front, each up to a NUL and as UTF-8
(`nextText?`), until there is none. The reading comes to an end on every value, since each text takes its NUL with it,
and it yields `Property.texts` (`lists_iff`). So what is yielded depends on the front of the value alone: the texts that
stand there are yielded (`Lists.of_entries`), and what is yielded stands there (`Lists.value_eq`).

* `texts_exactly`: a list of texts is read back as it was stored, and of any value the longest run of texts at its
  front is read.
-/

namespace DeviceTree

namespace Bytes

variable {front rest bs : Bytes}

theorem terminated_append (h : 0 ∉ front) (rest : Bytes) :
    terminated (front ++ 0 :: rest) = front :: terminated rest := by
  induction front with
  | nil => rfl
  | cons b front ih =>
    rw [List.mem_cons, not_or] at h
    rw [List.cons_append, terminated, if_neg (Ne.symm h.1), ih h.2]

theorem terminated_of_notMem (h : 0 ∉ bs) : terminated bs = [] := by
  induction bs with
  | nil => rfl
  | cons b bs ih =>
    rw [List.mem_cons, not_or] at h
    rw [terminated, if_neg (Ne.symm h.1), ih h.2]

end Bytes

namespace Property

open Utf8 (encode)

/-- The bytes of texts that follow one another, each with a NUL behind it. -/
def entries (texts : List String) : Bytes :=
  texts.flatMap fun text => encode text ++ [0]

/-- The text at the front of a value, and what is left of the value behind the text and its NUL. -/
def nextText? (value : Bytes) : Option (String × Bytes) :=
  match value.untilNul? with
  | none => none
  | some (front, _) => (Utf8.decode? front).map fun text => (text, value.drop (text.utf8ByteSize + 1))

/-- Taking texts off the front of the value, one after the other until there is none, yields this list. -/
inductive Lists : Bytes → List String → Prop where
  | done {value : Bytes} (h : nextText? value = none) : Lists value []
  | next {value rest : Bytes} {text : String} {texts : List String} (h : nextText? value = some (text, rest))
    (more : Lists rest texts) : Lists value (text :: texts)

variable {value rest : Bytes} {text : String} {texts texts' : List String}

theorem entries_cons_append (text : String) (texts : List String) (rest : Bytes) :
    entries (text :: texts) ++ rest = encode text ++ 0 :: (entries texts ++ rest) := by
  simp [entries]

/-! ## One text -/

theorem drop_text (text : String) (rest : Bytes) :
    (encode text ++ 0 :: rest).drop (text.utf8ByteSize + 1) = rest := by
  rw [← Utf8.length_encode, List.drop_length_add_append]
  rfl

theorem nul_notMem_encode (h : '\x00' ∉ text.toList) : 0 ∉ encode text :=
  fun hmem => h (Utf8.zero_mem_encode_iff.1 hmem)

theorem nextText?_eq_some_iff :
    nextText? value = some (text, rest) ↔ value = encode text ++ 0 :: rest ∧ '\x00' ∉ text.toList := by
  refine ⟨fun h => ?_, fun h => ?_⟩
  · unfold nextText? at h
    split at h
    · cases h
    · rename_i front after hfront
      obtain ⟨rfl, hnul⟩ := Bytes.untilNul?_eq_some_iff.1 hfront
      obtain ⟨text', hdecode, he⟩ := Option.map_eq_some_iff.1 h
      obtain ⟨rfl, rfl⟩ := Prod.mk.inj he
      obtain rfl := Utf8.decode?_eq_some_iff.1 hdecode
      rw [drop_text]
      exact ⟨rfl, fun hmem => hnul (Utf8.zero_mem_encode_iff.2 hmem)⟩
  · obtain ⟨rfl, hnul⟩ := h
    rw [nextText?, Bytes.untilNul?_append (nul_notMem_encode hnul)]
    simp only [Utf8.decode?_eq_some_iff.2 rfl, Option.map_some, drop_text]

theorem nextText?_shorter (h : nextText? value = some (text, rest)) : rest.length < value.length := by
  obtain ⟨rfl, -⟩ := nextText?_eq_some_iff.1 h
  rw [List.length_append, List.length_cons]
  omega

/-- A value begins with no text just when its first piece is none, or it has no piece at all. -/
theorem leadingTexts_terminated (value : Bytes) :
    leadingTexts value.terminated =
      match nextText? value with
      | none => []
      | some (text, rest) => text :: leadingTexts rest.terminated := by
  unfold nextText?
  cases hfront : value.untilNul? with
  | none => rw [Bytes.terminated_of_notMem (Bytes.untilNul?_eq_none_iff.1 hfront), leadingTexts]
  | some p =>
    obtain ⟨front, after⟩ := p
    obtain ⟨rfl, hnul⟩ := Bytes.untilNul?_eq_some_iff.1 hfront
    rw [Bytes.terminated_append hnul, leadingTexts]
    dsimp only
    cases hdecode : Utf8.decode? front with
    | none => rfl
    | some text =>
      obtain rfl := Utf8.decode?_eq_some_iff.1 hdecode
      simp only [Option.map_some, drop_text]

/-! ## Lists of texts -/

theorem lists_leadingTexts (value : Bytes) : Lists value (leadingTexts value.terminated) := by
  induction h : value.length using Nat.strongRecOn generalizing value with
  | ind n ih =>
    subst h
    rw [leadingTexts_terminated]
    cases hnext : nextText? value with
    | none => exact .done hnext
    | some p => exact .next hnext (ih _ (nextText?_shorter hnext) _ rfl)

theorem Lists.unique (h : Lists value texts) (h' : Lists value texts') : texts = texts' := by
  induction h generalizing texts' with
  | done hnone =>
    cases h' with
    | done => rfl
    | next hsome => rw [hnone] at hsome; cases hsome
  | next hsome _ ih =>
    cases h' with
    | done hnone => rw [hnone] at hsome; cases hsome
    | next hsome' hmore' =>
      obtain ⟨rfl, rfl⟩ := Prod.mk.inj (Option.some.inj (hsome.symm.trans hsome'))
      rw [ih hmore']

/-- The reading of a value comes to an end, with its list of texts. -/
theorem lists_iff {p : Property} : Lists p.value texts ↔ texts = p.texts :=
  ⟨fun h => h.unique (lists_leadingTexts p.value), fun h => h ▸ lists_leadingTexts p.value⟩

/-- What is yielded stands at the front of the value, and no text stands behind it. -/
theorem Lists.value_eq (h : Lists value texts) :
    (∀ text ∈ texts, '\x00' ∉ text.toList) ∧ ∃ rest, value = entries texts ++ rest ∧ nextText? rest = none := by
  induction h with
  | @done value hnone => exact ⟨nofun, value, rfl, hnone⟩
  | next hsome _ ih =>
    obtain ⟨rfl, hnul⟩ := nextText?_eq_some_iff.1 hsome
    obtain ⟨hnuls, rest, rfl, hnone⟩ := ih
    exact ⟨List.forall_mem_cons.2 ⟨hnul, hnuls⟩, rest, (entries_cons_append ..).symm, hnone⟩

/-- Texts at the front of a value are yielded first. -/
theorem Lists.of_entries (hnul : ∀ text ∈ texts, '\x00' ∉ text.toList) (h : Lists rest texts') :
    Lists (entries texts ++ rest) (texts ++ texts') := by
  induction texts with
  | nil => exact h
  | cons text texts ih =>
    obtain ⟨htext, htexts⟩ := List.forall_mem_cons.1 hnul
    rw [entries_cons_append]
    exact .next (nextText?_eq_some_iff.2 ⟨rfl, htext⟩) (ih htexts)

theorem texts_of_value_eq {p : Property} (hnul : ∀ text ∈ texts, '\x00' ∉ text.toList)
    (h : p.value = entries texts ++ rest) : p.texts = texts ++ leadingTexts rest.terminated := by
  refine (lists_iff.1 ?_).symm
  rw [h]
  exact .of_entries hnul (lists_leadingTexts rest)

theorem text?_eq_some_iff {p : Property} :
    p.text? = some text ↔ p.value = encode text ++ [0] ∧ '\x00' ∉ text.toList := by
  refine ⟨fun h => ?_, fun h => ?_⟩
  · unfold text? at h
    split at h
    · rename_i front hfront
      obtain ⟨hvalue, hnul⟩ := Bytes.untilNul?_eq_some_iff.1 hfront
      obtain rfl := Utf8.decode?_eq_some_iff.1 h
      exact ⟨hvalue, fun hmem => hnul (Utf8.zero_mem_encode_iff.2 hmem)⟩
    · cases h
  · obtain ⟨hvalue, hnul⟩ := h
    rw [text?, hvalue, Bytes.untilNul?_append (nul_notMem_encode hnul)]
    exact Utf8.decode?_eq_some_iff.2 rfl

/-- A single text is the whole value just when the value is as long as the text with its NUL. -/
theorem texts_singleton_iff {p : Property} :
    p.texts = [text] ∧ text.utf8ByteSize + 1 = p.value.length ↔
      p.value = encode text ++ [0] ∧ '\x00' ∉ text.toList := by
  refine ⟨fun ⟨htexts, hlen⟩ => ?_, fun ⟨hvalue, hnul⟩ => ⟨?_, ?_⟩⟩
  · obtain ⟨hnul, rest, hvalue, -⟩ := (lists_iff.2 htexts.symm).value_eq
    rw [entries_cons_append] at hvalue
    rw [hvalue, List.length_append, List.length_cons, Utf8.length_encode] at hlen
    obtain rfl : rest = [] := List.eq_nil_of_length_eq_zero (by
      change _ = _ + (rest.length + 1) at hlen
      omega)
    exact ⟨hvalue, hnul text (List.mem_singleton.2 rfl)⟩
  · have hentries : p.value = entries [text] ++ [] := hvalue.trans (entries_cons_append text [] []).symm
    exact texts_of_value_eq (List.forall_mem_singleton.2 hnul) hentries
  · rw [hvalue, List.length_append, Utf8.length_encode]
    rfl

/-- Texts that are stored one after the other, each with a NUL, are read back, empty ones as well. Of any value the
texts at its front are read, as many as there are: what is read ends the value or is followed by no text, and no longer
list of texts stands there. And a value is a single text just when it is that text and its NUL, which is when that text
is all that is read and is as long as the value with its NUL. -/
theorem texts_exactly (p : Property) :
    (∀ texts, (∀ text ∈ texts, '\x00' ∉ text.toList) → p.value = entries texts → p.texts = texts) ∧
    (∀ texts, Lists p.value texts ↔ texts = p.texts) ∧
    ((∀ text ∈ p.texts, '\x00' ∉ text.toList) ∧ ∃ rest, p.value = entries p.texts ++ rest ∧
      ∀ text after, '\x00' ∉ text.toList → rest ≠ encode text ++ 0 :: after) ∧
    (∀ texts rest, (∀ text ∈ texts, '\x00' ∉ text.toList) → p.value = entries texts ++ rest →
      texts <+: p.texts) ∧
    (∀ text, (p.text? = some text ↔ p.value = encode text ++ [0] ∧ '\x00' ∉ text.toList) ∧
      (p.text? = some text ↔ p.texts = [text] ∧ text.utf8ByteSize + 1 = p.value.length)) := by
  refine ⟨fun texts hnul hvalue => ?_, fun texts => lists_iff, ?_, fun texts rest hnul hvalue => ?_, fun text => ?_⟩
  · have hread := texts_of_value_eq hnul (hvalue.trans (List.append_nil _).symm)
    rw [hread]
    exact List.append_nil texts
  · obtain ⟨hnul, rest, hvalue, hnone⟩ := (lists_iff.2 rfl : Lists p.value p.texts).value_eq
    refine ⟨hnul, rest, hvalue, fun text after htext hrest => ?_⟩
    rw [nextText?_eq_some_iff.2 ⟨hrest, htext⟩] at hnone
    cases hnone
  · rw [texts_of_value_eq hnul hvalue]
    exact List.prefix_append ..
  · exact ⟨text?_eq_some_iff, text?_eq_some_iff.trans texts_singleton_iff.symm⟩

/-- An empty text between others is read like any other, and bytes that are not UTF-8 end the list. -/
theorem texts_exactly_emptyText :
    ({ name := "x", value := [0x61, 0, 0, 0xC3, 0xA9, 0] } : Property).texts = ["a", "", "é"] ∧
      ["a", ""] <+: ({ name := "x", value := [0x61, 0, 0, 0xC3, 0] } : Property).texts :=
  ⟨(texts_exactly _).1 ["a", "", "é"] (by decide) (by decide),
    (texts_exactly _).2.2.2.1 ["a", ""] [0xC3, 0] (by decide) (by decide)⟩

end Property

end DeviceTree
