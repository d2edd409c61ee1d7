import DeviceTree.Decode.Structure
import DeviceTree.Proofs.Cursor

/-!
# What the reader of a structure block reads

The reader's parts against the grammar: a stored name or path (`nodeStoredAs_eq_some_iff`), an opening
(`readOpening_eq_ok_iff`), a property record (`readProperty_eq_ok_iff`), and from them everything that one token
can lead to (`Leads`, `step_eq_ok_iff`). The reading of open nodes then is one step after the other
(`readOpen_of_reading`, `readOpen_of_closed`, `readOpen_of_error`).
-/

namespace DeviceTree

open BigEndian (word32)

theorem Path.nameWithin?_eq_some_iff {parent : Option String} {id name : String} :
    Path.nameWithin? parent id = some name ↔
      match parent with
      | none => id = "/" ∧ name = ""
      | some parent => '/' ∉ name.toList ∧
        ∃ dir, id = dir ++ "/" ++ name ∧ (if dir = "" then "/" else dir) = parent := by
  cases parent with
  | none =>
    simp only [Path.nameWithin?]
    split <;> simp_all [eq_comm]
  | some parent =>
    have hdir (cs : List Char) : (if cs = [] then ['/'] else cs) = parent.toList ↔
        (if String.ofList cs = "" then "/" else String.ofList cs) = parent := by
      rw [← String.toList_inj]
      by_cases hcs : cs = []
      · simp [hcs]
      · have : String.ofList cs ≠ "" := fun h => hcs (by simpa using congrArg String.toList h)
        simp [hcs, this]
    simp only [Path.nameWithin?]
    refine ⟨fun h => ?_, fun h => ?_⟩
    · split at h
      · cases h
      · rename_i dir name' hs
        obtain ⟨hid, hname⟩ := Split.splitLast?_eq_some_iff.1 hs
        by_cases hp : (if dir = [] then ['/'] else dir) = parent.toList
        · rw [if_pos hp] at h
          obtain rfl := Option.some.inj h
          refine ⟨by simpa using hname, String.ofList dir, ?_, (hdir dir).1 hp⟩
          rw [← String.toList_inj]
          simpa using hid
        · rw [if_neg hp] at h
          cases h
    · obtain ⟨hname, dir, rfl, hp⟩ := h
      have hs : Split.splitLast? '/' (dir ++ "/" ++ name).toList = some (dir.toList, name.toList) :=
        Split.splitLast?_eq_some_iff.2 ⟨by simp, hname⟩
      simp only [hs]
      rw [if_pos ((hdir dir.toList).2 (by simpa using hp))]
      simp

namespace BlockReader

variable {r : BlockReader} {g : Format.Context} {base pos : Nat} {bs : Bytes} {c : Cursor}

/-- The reader goes by this context. -/
def Reads (r : BlockReader) (g : Format.Context) : Prop :=
  r.features = .ofNumber g.version ∧ r.strings.bytes = g.strings

theorem nodeStoredAs_eq_some_iff (hr : r.Reads g) {parent : Option String} {id : String} {n : Node} :
    r.nodeStoredAs parent id = some n ↔
      ∃ name path, Format.StoredAs g.version parent id name path ∧ n = { name, path } := by
  unfold nodeStoredAs Format.StoredAs
  rw [hr.1]
  by_cases hv : g.version < 16
  · simp only [Features.ofNumber, hv, decide_true, if_true, Option.map_eq_some_iff,
      Path.nameWithin?_eq_some_iff]
    refine ⟨fun h => ?_, fun h => ?_⟩
    · obtain ⟨name, hname, rfl⟩ := h
      exact ⟨name, id, ⟨rfl, hname⟩, rfl⟩
    · obtain ⟨name, path, ⟨rfl, hname⟩, rfl⟩ := h
      exact ⟨name, hname, rfl⟩
  · simp only [Features.ofNumber, hv, decide_false, Bool.false_eq_true, if_false, Option.some.injEq]
    refine ⟨fun h => ?_, fun h => ?_⟩
    · obtain rfl := h
      exact ⟨id, _, ⟨rfl, rfl⟩, rfl⟩
    · obtain ⟨name, path, ⟨rfl, rfl⟩, rfl⟩ := h
      rfl

theorem result_readOpening (r : BlockReader) (parent : Option String) (c : Cursor) :
    (r.readOpening parent c).result = c.text >>= fun p =>
      match r.nodeStoredAs parent (Utf8.lossy p.1) with
      | none => .error (c.error (.pathMismatch (Utf8.lossy p.1) (parent.getD "")))
      | some n => .ok (n, p.2) := by
  unfold readOpening
  cases c.text with
  | error e => rfl
  | ok p =>
    rw [ok_bind]
    dsimp only [Outcome.result_after]
    cases r.nodeStoredAs parent (Utf8.lossy p.1) <;> rfl

theorem readOpening_eq_ok_iff (hr : r.Reads g) {parent : Option String} {n : Node} :
    (r.readOpening parent (.inBlock base (pos + 4) bs)).result = .ok (n, c) ↔
      ∃ opening rest name path, word32 Token.beginNode.word ++ bs = opening ++ rest ∧
        Format.IsOpening g parent pos opening name path ∧ n = { name, path } ∧
        c = .inBlock base (pos + opening.length) rest := by
  unfold readOpening
  refine ⟨fun h => ?_, fun h => ?_⟩
  · split at h
    · cases h
    · rename_i id next ht
      obtain ⟨fill, rest, rfl, hnul, hfill, rfl⟩ := Cursor.text_eq_ok_iff.1 ht
      simp only [Outcome.result_after] at h
      split at h
      · cases h
      · rename_i n' hn
        obtain ⟨rfl, rfl⟩ := Prod.mk.inj (Except.ok.inj h)
        obtain ⟨name, path, hstored, rfl⟩ := (nodeStoredAs_eq_some_iff hr).1 hn
        refine ⟨_, rest, name, path, ?_, .intro id fill name path hnul hfill hstored, rfl, ?_⟩
        · simp
        · simp [Cursor.inBlock]
          omega
  · obtain ⟨opening, rest, name, path, hbs, ho, rfl, rfl⟩ := h
    obtain ⟨id, fill, name, path, hnul, hfill, hstored⟩ := ho
    rw [List.append_assoc, List.append_assoc, List.append_cancel_left_eq] at hbs
    have ht : (Cursor.inBlock base (pos + 4) bs).text =
        .ok (id, .inBlock base (pos + 4 + id.length + 1 + fill.length) rest) :=
      Cursor.text_eq_ok_iff.2 ⟨fill, rest, by simpa using hbs, hnul, hfill, rfl⟩
    simp only [ht, (nodeStoredAs_eq_some_iff hr).2 ⟨name, path, hstored, rfl⟩, Outcome.result_after]
    simp [Cursor.inBlock]
    omega

theorem skipToValue_eq_ok_iff (hr : r.Reads g) {size : Nat} :
    r.skipToValue size (.inBlock base pos bs) = .ok c ↔
      ∃ gap rest, bs = gap ++ rest ∧
        gap.length = (if g.version < 16 ∧ 8 ≤ size then padding 8 pos else 0) ∧
        c = .inBlock base (pos + gap.length) rest := by
  unfold skipToValue
  rw [hr.1]
  by_cases hv : g.version < 16 ∧ 8 ≤ size
  · simp only [Features.ofNumber, hv, decide_true, and_self, if_true, Cursor.realign_eq_ok_iff]
  · have hv' : ¬((Features.ofNumber g.version).alignedValues = true ∧ 8 ≤ size) := by
      simpa [Features.ofNumber] using hv
    simp only [hv, hv', if_false, Except.ok.injEq]
    refine ⟨fun h => ?_, fun h => ?_⟩
    · obtain rfl := h
      exact ⟨[], bs, rfl, rfl, rfl⟩
    · obtain ⟨gap, rest, rfl, hlen, rfl⟩ := h
      obtain rfl := List.eq_nil_of_length_eq_zero hlen
      rfl

theorem readProperty_eq_ok_iff (hr : r.Reads g) {p : Property} :
    r.readProperty (.inBlock base (pos + 4) bs) = .ok (p, c) ↔
      ∃ record rest, word32 Token.property.word ++ bs = record ++ rest ∧
        Format.IsProperty g pos record p ∧ c = .inBlock base (pos + record.length) rest := by
  refine ⟨fun h => ?_, fun h => ?_⟩
  · obtain ⟨size, offset, c₁, c₂, c₃, h₁, h₂, h₃, h₄, h₅, h₆⟩ := readProperty_eq_ok h
    obtain ⟨_, rfl, rfl⟩ := Cursor.word_eq_ok_iff.1 h₁
    obtain ⟨_, rfl, rfl⟩ := Cursor.word_eq_ok_iff.1 h₂
    obtain ⟨gap, _, rfl, hgap, rfl⟩ := (skipToValue_eq_ok_iff hr).1 h₄
    obtain ⟨fill, rest, rfl, hvalue, hfill, rfl⟩ := Cursor.data_eq_ok_iff.1 h₅
    obtain ⟨name, value, label⟩ := p
    obtain rfl : label = none := h₆
    rw [StringBlock.name_eq_ok_iff, hr.2] at h₃
    refine ⟨_, rest, ?_, .intro size offset name gap value fill h₃ hgap hvalue hfill, ?_⟩
    · simp
    · simp [Cursor.inBlock]
      omega
  · obtain ⟨record, rest, hbs, hp, rfl⟩ := h
    obtain ⟨size, offset, name, gap, value, fill, hname, hgap, hvalue, hfill⟩ := hp
    simp only [List.append_assoc, List.append_cancel_left_eq] at hbs
    subst hbs
    have h₁ : (Cursor.inBlock base (pos + 4) (word32 size ++
        (word32 offset ++ (gap ++ (value ++ (fill ++ rest)))))).word =
          .ok (size, .inBlock base (pos + 8) (word32 offset ++ (gap ++ (value ++ (fill ++ rest))))) :=
      Cursor.word_eq_ok_iff.2 ⟨_, rfl, rfl⟩
    have h₂ : (Cursor.inBlock base (pos + 8) (word32 offset ++ (gap ++ (value ++ (fill ++ rest))))).word =
        .ok (offset, .inBlock base (pos + 12) (gap ++ (value ++ (fill ++ rest)))) :=
      Cursor.word_eq_ok_iff.2 ⟨_, rfl, rfl⟩
    have h₃ : r.strings.name offset = .ok name := StringBlock.name_eq_ok_iff.2 (hr.2 ▸ hname)
    have h₄ : r.skipToValue size.toNat (.inBlock base (pos + 12) (gap ++ (value ++ (fill ++ rest)))) =
        .ok (.inBlock base (pos + 12 + gap.length) (value ++ (fill ++ rest))) :=
      (skipToValue_eq_ok_iff hr).2 ⟨gap, _, rfl, hgap, rfl⟩
    have h₅ : (Cursor.inBlock base (pos + 12 + gap.length) (value ++ (fill ++ rest))).data size.toNat =
        .ok (value, .inBlock base (pos + 12 + gap.length + value.length + fill.length) rest) :=
      Cursor.data_eq_ok_iff.2 ⟨fill, rest, (List.append_assoc value fill rest).symm, hvalue, hfill, rfl⟩
    simp only [readProperty, bind, Except.bind, h₁, h₂, h₃, h₄, h₅, pure, Except.pure]
    simp [Cursor.inBlock]
    omega

/-! ## Tokens -/

/-- What reading one token of `bs` leads to, for the innermost open node and those around it. -/
inductive Leads (g : Format.Context) (base pos : Nat) (inner : Node) (outer : List Node) :
    Bytes → Progress → Prop where
  /-- The last open node closes. -/
  | closed {rest : Bytes} (houter : outer = []) :
    Leads g base pos inner outer (word32 Token.endNode.word ++ rest) (.closed inner (.inBlock base (pos + 4) rest))
  /-- The innermost node closes and goes to the node around it. -/
  | endNode {rest : Bytes} {parent : Node} {outer' : List Node} (houter : outer = parent :: outer') :
    Leads g base pos inner outer (word32 Token.endNode.word ++ rest)
      (.reading ⟨parent.pushChild inner, outer', .inBlock base (pos + 4) rest⟩)
  /-- A property goes to the innermost node. -/
  | property {record rest : Bytes} {p : Property} (hp : Format.IsProperty g pos record p) :
    Leads g base pos inner outer (record ++ rest)
      (.reading ⟨inner.addProperty p, outer, .inBlock base (pos + record.length) rest⟩)
  /-- A node opens. -/
  | beginNode {opening rest : Bytes} {name path : String} (hdepth : outer.length + 1 < maxNesting)
    (hopening : Format.IsOpening g (some inner.path) pos opening name path) :
    Leads g base pos inner outer (opening ++ rest)
      (.reading ⟨{ name, path }, inner :: outer, .inBlock base (pos + opening.length) rest⟩)

/-- What a step comes to at a token, with the cursor behind it. -/
def stepAt (r : BlockReader) (s : Reading) (next : Cursor) : Token → Except DecodeError Progress
  | .finish => .error (s.cursor.error .prematureEnd)
  | .endNode =>
    match s.outer with
    | [] => .ok (.closed s.inner next)
    | parent :: outer => .ok (.reading ⟨parent.pushChild s.inner, outer, next⟩)
  | .property => (r.readProperty next).map fun (p, next) => .reading ⟨s.inner.addProperty p, s.outer, next⟩
  | .beginNode =>
    if maxNesting ≤ s.outer.length + 1 then .error (next.error .nestingTooDeep)
    else (r.readOpening (some s.inner.path) next).result.map fun (n, next) =>
      .reading ⟨n, s.inner :: s.outer, next⟩

theorem result_step_token {s : Reading} {t : Token} {next : Cursor} (hw : s.cursor.word = .ok (t.word, next)) :
    (r.step s).result = r.stepAt s next t := by
  unfold step
  simp only [Outcome.result_bind]
  rw [hw]
  show Outcome.result (match Token.ofWord? t.word with | _ => _) = _
  rw [Token.ofWord?_word]
  cases t with
  | finish => rfl
  | endNode =>
    unfold stepAt
    cases s.outer <;> rfl
  | property =>
    simp only [Outcome.result_bind]
    unfold stepAt
    cases hp : r.readProperty next <;> rfl
  | beginNode =>
    unfold stepAt
    dsimp only
    split
    · rfl
    · simp only [Outcome.result_bind]
      cases ho : (r.readOpening (some s.inner.path) next).result <;> rfl

theorem result_step (r : BlockReader) (s : Reading) :
    (r.step s).result = s.cursor.word >>= fun p =>
      match Token.ofWord? p.1 with
      | none => .error (s.cursor.error (.badToken p.1))
      | some t => r.stepAt s p.2 t := by
  cases hw : s.cursor.word with
  | error e =>
    unfold step
    rw [hw]
    rfl
  | ok p =>
    obtain ⟨word, next⟩ := p
    rw [ok_bind]
    cases ht : Token.ofWord? word with
    | none =>
      unfold step
      simp only [Outcome.result_bind]
      rw [hw]
      show Outcome.result _ = _
      dsimp only
      rw [ht]
      rfl
    | some t =>
      obtain rfl := Token.ofWord?_eq_some_iff.1 ht
      exact result_step_token hw

theorem result_step_inBlock (inner : Node) (outer : List Node) (t : Token) (rest : Bytes) :
    (r.step ⟨inner, outer, .inBlock base pos (word32 t.word ++ rest)⟩).result =
      r.stepAt ⟨inner, outer, .inBlock base pos (word32 t.word ++ rest)⟩ (.inBlock base (pos + 4) rest) t :=
  result_step_token (Cursor.word_eq_ok_iff.2 ⟨rest, rfl, rfl⟩)

/-- A step that does not fail begins with a token. -/
theorem word_of_step_eq_ok {s : Reading} {p : Progress} (h : (r.step s).result = .ok p) :
    ∃ (t : Token) (next : Cursor), s.cursor.word = .ok (t.word, next) := by
  unfold step at h
  simp only [Outcome.result_bind] at h
  cases hw : s.cursor.word with
  | error e =>
    rw [hw] at h
    cases h
  | ok w =>
    obtain ⟨word, next⟩ := w
    rw [hw] at h
    change Outcome.result (match Token.ofWord? word with | _ => _) = _ at h
    cases ht : Token.ofWord? word with
    | none =>
      rw [ht] at h
      cases h
    | some t => exact ⟨t, next, by rw [Token.ofWord?_eq_some_iff.1 ht]⟩

theorem step_eq_ok_iff (hr : r.Reads g) {inner : Node} {outer : List Node} {p : Progress} :
    (r.step ⟨inner, outer, .inBlock base pos bs⟩).result = .ok p ↔ Leads g base pos inner outer bs p := by
  refine ⟨fun h => ?_, fun h => ?_⟩
  · obtain ⟨t, next, hw⟩ := word_of_step_eq_ok h
    rw [result_step_token hw] at h
    unfold stepAt at h
    obtain ⟨rest, rfl, rfl⟩ := Cursor.word_eq_ok_iff.1 hw
    cases t with
    | finish => cases h
    | endNode =>
      cases outer with
      | nil =>
        obtain rfl := Except.ok.inj h
        exact .closed rfl
      | cons parent outer =>
        obtain rfl := Except.ok.inj h
        exact .endNode rfl
    | property =>
      obtain ⟨⟨p, next⟩, hp, rfl⟩ := map_eq_ok_iff.1 h
      obtain ⟨record, rest', hbs, hrecord, rfl⟩ := (readProperty_eq_ok_iff hr).1 hp
      rw [hbs]
      exact .property hrecord
    | beginNode =>
      dsimp only at h
      split at h
      · cases h
      · rename_i hdepth
        obtain ⟨⟨n, next⟩, ho, rfl⟩ := map_eq_ok_iff.1 h
        obtain ⟨opening, rest', name, path, hbs, hopening, rfl, rfl⟩ := (readOpening_eq_ok_iff hr).1 ho
        rw [hbs]
        exact .beginNode (Nat.not_le.1 hdepth) hopening
  · cases h with
    | closed houter =>
      subst houter
      exact result_step_inBlock ..
    | endNode houter =>
      subst houter
      exact result_step_inBlock ..
    | @property record rest p hp =>
      obtain ⟨tail, rfl⟩ := hp.exists_tail
      have hread : r.readProperty (.inBlock base (pos + 4) (tail ++ rest)) = .ok (p, _) :=
        (readProperty_eq_ok_iff hr).2 ⟨_, rest, (List.append_assoc ..).symm, hp, rfl⟩
      rw [List.append_assoc, result_step_inBlock]
      simp only [stepAt, hread]
      rfl
    | @beginNode opening rest name path hdepth hopening =>
      obtain ⟨tail, rfl⟩ := hopening.exists_tail
      have hread : (r.readOpening (some inner.path) (.inBlock base (pos + 4) (tail ++ rest))).result =
          .ok ({ name, path }, _) :=
        (readOpening_eq_ok_iff hr).2 ⟨_, rest, name, path, (List.append_assoc ..).symm, hopening, rfl, rfl⟩
      rw [List.append_assoc, result_step_inBlock]
      simp only [stepAt, hread, Nat.not_le.2 hdepth, if_false]
      rfl

/-! ## Open nodes -/

theorem readOpen_of_reading {s s' : Reading} (h : (r.step s).result = .ok (.reading s')) :
    (r.readOpen s).result = (r.readOpen s').result := by
  rw [readOpen]
  split <;> simp_all

theorem readOpen_of_closed {s : Reading} {root : Node} (h : (r.step s).result = .ok (.closed root c)) :
    (r.readOpen s).result = .ok (root, c) := by
  rw [readOpen]
  split <;> simp_all

theorem readOpen_of_error {s : Reading} {e : DecodeError} (h : (r.step s).result = .error e) :
    (r.readOpen s).result = .error e := by
  rw [readOpen]
  split <;> simp_all

end BlockReader
end DeviceTree
