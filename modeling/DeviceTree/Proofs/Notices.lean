import DeviceTree.Proofs.Records

/-!
# The notices of reading a tree

The reader has its say about a node when it has read the node's opening, and only then. So where a record of the block
stands, one token gives the notices about the nodes that begin with the record (`step_of_record`), and records one after
the other give these notices one after the other (`proceed_records`, by induction on the records). Where there is no
record any more, the reading is over, and says at most one thing more: that the text which was no path was not UTF-8
either (`notices_of_step_eq_error`).

* `readTree_notices`: the notices of the reading of a tree, whether it succeeds or fails.
-/

namespace DeviceTree

open BigEndian (word32)
open Format (Place IsRecord Records NoRecord Longest Begun rejection storedText)

namespace Outcome

variable {ε α β : Type} {o : Outcome ε α} {f : α → Outcome ε β}

theorem bind_of_ok {a : α} (h : o.result = .ok a) : o >>= f = (f a).after o.notices := by
  show o.andThen f = _
  rw [andThen, h]

theorem bind_of_error {e : ε} (h : o.result = .error e) : o >>= f = ⟨o.notices, .error e⟩ := by
  show o.andThen f = _
  rw [andThen, h]

theorem ofExcept_ok_bind (a : α) (f : α → Outcome ε β) : ofExcept (.ok a) >>= f = f a :=
  bind_of_ok rfl

theorem ofExcept_error_bind (e : ε) (f : α → Outcome ε β) : ofExcept (.error e) >>= f = ofExcept (.error e) :=
  bind_of_error rfl

theorem after_after (ns ns' : List Notice) (o : Outcome ε α) : (o.after ns').after ns = o.after (ns ++ ns') := by
  simp [after]

theorem after_bind (ns : List Notice) (o : Outcome ε α) (f : α → Outcome ε β) :
    o.after ns >>= f = (o >>= f).after ns := by
  cases h : o.result with
  | ok a =>
    have h' : (o.after ns).result = .ok a := h
    rw [bind_of_ok h', bind_of_ok h, after_after]
    rfl
  | error e =>
    have h' : (o.after ns).result = .error e := h
    rw [bind_of_error h', bind_of_error h]
    rfl

end Outcome

namespace Node

/-- The name and the path of the node and of all nodes below it, each before its children. -/
def titles (n : Node) : List (String × String) :=
  n.preorder.map fun m => (m.name, m.path)

theorem titles_eq (n : Node) : n.titles = (n.name, n.path) :: n.children.flatMap titles := by
  rw [titles, preorder_eq, List.map_cons, List.map_flatMap]
  rfl

theorem titles_addProperty (n : Node) (p : Property) : (n.addProperty p).titles = n.titles := by
  rw [titles_eq, titles_eq n]
  rfl

theorem titles_pushChild (n child : Node) : (n.pushChild child).titles = n.titles ++ child.titles := by
  rw [titles_eq, titles_eq n]
  simp [pushChild]

end Node

namespace BlockReader

variable {r : BlockReader} {g : Format.Context} {base pos : Nat} {bs : Bytes} {c c' : Cursor} {e : DecodeError}
  {s : Reading}

/-- The place that has been reached. -/
def Progress.place : Progress → Place
  | reading s => .inside s.inner.path (s.outer.map (·.path))
  | closed _ _ => .behind

/-- The names and paths of the nodes that have been read so far, each before its children. -/
def Progress.titles : Progress → List (String × String)
  | reading s => (s.outer.reverse ++ [s.inner]).flatMap Node.titles
  | closed root _ => root.titles

/-! ## One token -/

theorem notices_readOpening {id : Bytes} (parent : Option String) (h : c.text = .ok (id, c')) :
    (r.readOpening parent c).notices = Begun.replacement id ++
      match r.nodeStoredAs parent (Utf8.lossy id) with
      | none => []
      | some n => if NodeName.Regular n.name then [] else [.irregularName n.name] := by
  unfold readOpening
  rw [h]
  simp only [Outcome.after, Begun.replacement, Utf8.isForm_iff, ← NodeName.isRegular_iff]
  cases r.nodeStoredAs parent (Utf8.lossy id) <;> rfl

/-- An opening that is read begins a node, and gives the notices about it. -/
theorem notices_of_readOpening_eq_ok {parent : Option String} {n : Node}
    (h : (r.readOpening parent c).result = .ok (n, c')) (w : UInt32) :
    (r.readOpening parent c).notices = Begun.warnings ⟨storedText (word32 w ++ c.rest), n.name, n.path⟩ := by
  rw [result_readOpening] at h
  obtain ⟨⟨id, next⟩, htext, h⟩ := bind_eq_ok_iff.1 h
  obtain ⟨⟨rest, hrest⟩, hnul⟩ := Cursor.text_rest htext
  rw [notices_readOpening parent htext, hrest, Format.storedText_word hnul]
  dsimp only at h
  cases hn : r.nodeStoredAs parent (Utf8.lossy id) with
  | none =>
    rw [hn] at h
    cases h
  | some m =>
    rw [hn] at h
    obtain ⟨rfl, -⟩ := Prod.mk.inj (Except.ok.inj h)
    rfl

/-- One that is not gives a notice only if its text is what is wrong. -/
theorem notices_of_readOpening_eq_error {parent : Option String}
    (h : (r.readOpening parent (.inBlock base pos bs)).result = .error e) (w : UInt32) :
    (r.readOpening parent (.inBlock base pos bs)).notices = rejection (word32 w ++ bs) e.fault := by
  cases htext : (Cursor.inBlock base pos bs).text with
  | error e' =>
    rw [result_readOpening, htext] at h
    obtain rfl := Except.error.inj h
    rw [readOpening, htext]
    rcases Cursor.text_error htext with ⟨-, rfl⟩ | ⟨_, _, -, -, -, rfl⟩ <;> rfl
  | ok p =>
    obtain ⟨id, next⟩ := p
    obtain ⟨⟨rest, hrest⟩, hnul⟩ := Cursor.text_rest htext
    obtain rfl : bs = id ++ 0 :: rest := hrest
    rw [result_readOpening, htext, ok_bind] at h
    rw [notices_readOpening parent htext]
    dsimp only at h
    cases hn : r.nodeStoredAs parent (Utf8.lossy id) with
    | none =>
      rw [hn] at h
      obtain rfl := Except.error.inj h
      show _ = Begun.replacement (storedText (word32 w ++ (id ++ 0 :: rest)))
      rw [Format.storedText_word hnul, List.append_nil]
    | some m =>
      rw [hn] at h
      cases h

/-- A token gives notices only where it opens a node. -/
theorem notices_step_token {t : Token} (hw : s.cursor.word = .ok (t.word, c)) :
    (r.step s).notices =
      if t = .beginNode ∧ s.outer.length + 1 < maxNesting then (r.readOpening (some s.inner.path) c).notices
      else [] := by
  unfold step
  rw [hw]
  show Outcome.notices (Outcome.ofExcept (.ok (t.word, c)) >>= _) = _
  rw [Outcome.ofExcept_ok_bind]
  dsimp only
  rw [Token.ofWord?_word]
  cases t with
  | finish => rfl
  | endNode => cases s.outer <;> rfl
  | property =>
    show Outcome.notices (Outcome.ofExcept _ >>= _) = _
    cases r.readProperty c <;> rfl
  | beginNode =>
    dsimp only
    by_cases hdepth : maxNesting ≤ s.outer.length + 1
    · rw [if_pos hdepth, if_neg fun h => Nat.not_lt.2 hdepth h.2]
      rfl
    · rw [if_neg hdepth, if_pos ⟨rfl, Nat.lt_of_not_le hdepth⟩]
      cases ho : (r.readOpening (some s.inner.path) c).result with
      | error e => rw [Outcome.bind_of_error ho]
      | ok p =>
        rw [Outcome.bind_of_ok ho]
        exact List.append_nil _

theorem rejection_of_readProperty_eq_error (hr : r.Reads g) {rest : Bytes}
    (h : r.readProperty (.inBlock base (pos + 4) rest) = .error e) (bs : Bytes) : rejection bs e.fault = [] := by
  rcases readProperty_error hr h with ⟨_, -, rfl⟩ | ⟨offset, hname⟩
  · rfl
  · unfold StringBlock.name at hname
    split at hname
    · obtain rfl := Except.error.inj hname
      rfl
    · split at hname
      · cases hname
      · obtain rfl := Except.error.inj hname
        rfl

/-- A token that is at fault gives a notice only if it is a text that is wrong. -/
theorem notices_of_step_eq_error (hr : r.Reads g) (hc : s.cursor = .inBlock base pos bs)
    (h : (r.step s).result = .error e) : (r.step s).notices = rejection bs e.fault := by
  rw [result_step] at h
  rcases bind_eq_error_iff.1 h with hw | ⟨⟨w, next⟩, hw, h⟩
  · obtain ⟨-, rfl⟩ := Cursor.word_error hw
    unfold step
    rw [hw]
    rfl
  cases ht : Token.ofWord? w with
  | none =>
    rw [ht] at h
    obtain rfl := Except.error.inj h
    unfold step
    rw [hw]
    show Outcome.notices (Outcome.ofExcept (.ok (w, next)) >>= _) = _
    rw [Outcome.ofExcept_ok_bind]
    dsimp only
    rw [ht]
    rfl
  | some t =>
    obtain rfl := Token.ofWord?_eq_some_iff.1 ht
    rw [notices_step_token hw]
    rw [ht] at h
    rw [hc] at hw
    obtain ⟨rest, rfl, rfl⟩ := Cursor.word_eq_ok_iff.1 hw
    cases t with
    | finish =>
      obtain rfl := Except.error.inj h
      rfl
    | endNode =>
      unfold stepAt at h
      cases hout : s.outer <;> simp [hout] at h
    | property => exact (rejection_of_readProperty_eq_error hr (map_eq_error_iff.1 h) _).symm
    | beginNode =>
      unfold stepAt at h
      dsimp only at h
      split at h
      · rename_i hdepth
        obtain rfl := Except.error.inj h
        rw [if_neg fun h => Nat.not_lt.2 hdepth h.2]
        rfl
      · rename_i hdepth
        rw [if_pos ⟨rfl, Nat.lt_of_not_le hdepth⟩]
        exact notices_of_readOpening_eq_error (map_eq_error_iff.1 h) _

/-! ## One record -/

/-- What one token leads to where a record stands, and with which notices. -/
theorem step_of_record (hr : r.Reads g) {place place' : Place} {record : Bytes} {begun : List Begun}
    (h : IsRecord g pos place record place' begun) (rest : Bytes)
    (hs : (Progress.reading s).place = place) (hc : s.cursor = .inBlock base pos (record ++ rest)) :
    ∃ p, (r.step s).result = .ok p ∧ (r.step s).notices = begun.flatMap Begun.warnings ∧ p.place = place' ∧
      p.cursor = .inBlock base (pos + record.length) rest ∧
      p.titles = (Progress.reading s).titles ++ begun.map Begun.title := by
  obtain ⟨inner, outer, c⟩ := s
  obtain rfl : c = .inBlock base pos (record ++ rest) := hc
  -- every record begins with its token
  have hword {t : Token} {tail : Bytes} (hrecord : record = word32 t.word ++ tail) :
      (Cursor.inBlock base pos (record ++ rest)).word = .ok (t.word, .inBlock base (pos + 4) (tail ++ rest)) :=
    Cursor.word_eq_ok_iff.2 ⟨tail ++ rest, by rw [hrecord, List.append_assoc], rfl⟩
  cases h with
  | root => cases hs
  | @property _ p _ _ hp =>
    cases hs
    obtain ⟨tail, htail⟩ := hp.exists_tail
    refine ⟨_, (step_eq_ok_iff hr).2 (.property hp), ?_, rfl, rfl, ?_⟩
    · rw [notices_step_token (hword htail), if_neg nofun]
      rfl
    · simp only [Progress.titles, List.flatMap_append, List.flatMap_singleton, Node.titles_addProperty, List.map_nil,
        List.append_nil]
  | @child _ name _ path _ hdepth hopening =>
    cases hs
    obtain ⟨tail, htail⟩ := hopening.exists_tail
    rw [List.length_map] at hdepth
    refine ⟨_, (step_eq_ok_iff hr).2 (.beginNode hdepth hopening), ?_, rfl, rfl, ?_⟩
    · have hread : (r.readOpening (some inner.path) (.inBlock base (pos + 4) (tail ++ rest))).result = .ok _ :=
        (readOpening_eq_ok_iff hr).2 ⟨record, rest, name, path, by rw [htail, List.append_assoc], hopening, rfl, rfl⟩
      rw [notices_step_token (hword htail), if_pos ⟨rfl, hdepth⟩,
        notices_of_readOpening_eq_ok hread Token.beginNode.word]
      show Begun.warnings ⟨storedText (word32 Token.beginNode.word ++ (tail ++ rest)), name, path⟩ = _
      rw [← List.append_assoc, ← htail, hopening.storedText_append, List.flatMap_singleton]
    · have htitles : ({ name, path } : Node).titles = [(name, path)] := Node.titles_eq _
      simp only [Progress.titles, List.reverse_cons, List.flatMap_append, List.flatMap_singleton, htitles]
      rfl
  | @endNode path parent around =>
    obtain ⟨parent, outer, rfl⟩ : ∃ parent' outer', outer = parent' :: outer' := by
      cases outer with
      | nil => cases hs
      | cons parent' outer' => exact ⟨parent', outer', rfl⟩
    cases hs
    refine ⟨_, (step_eq_ok_iff hr).2 (.endNode rfl), ?_, rfl, rfl, ?_⟩
    · rw [notices_step_token (hword (List.append_nil _).symm), if_neg nofun]
      rfl
    · simp only [Progress.titles, List.reverse_cons, List.flatMap_append, List.flatMap_singleton, Node.titles_pushChild,
        List.map_nil, List.append_nil, List.append_assoc]
  | endRoot =>
    obtain rfl : outer = [] := by
      cases outer with
      | nil => rfl
      | cons _ _ => cases hs
    refine ⟨_, (step_eq_ok_iff hr).2 (.closed rfl), ?_, rfl, rfl, ?_⟩
    · rw [notices_step_token (hword (List.append_nil _).symm), if_neg nofun]
      rfl
    · simp only [Progress.titles, List.reverse_nil, List.nil_append, List.flatMap_singleton, List.map_nil,
        List.append_nil]

/-- A token that is read is the front of a record. -/
theorem not_noRecord_of_step (hr : r.Reads g) {bs : Bytes} {p : Progress} (hc : s.cursor = .inBlock base pos bs)
    (h : (r.step s).result = .ok p) : ¬NoRecord g pos (Progress.reading s).place bs := by
  obtain ⟨inner, outer, c⟩ := s
  obtain rfl : c = .inBlock base pos bs := hc
  intro hnone
  cases (step_eq_ok_iff hr).1 h with
  | closed houter =>
    subst houter
    exact hnone _ _ _ _ rfl .endRoot
  | endNode houter =>
    subst houter
    exact hnone _ _ _ _ rfl .endNode
  | property hp => exact hnone _ _ _ _ rfl (.property hp)
  | beginNode hdepth hopening => exact hnone _ _ _ _ rfl (.child (by rw [List.length_map]; exact hdepth) hopening)

/-! ## Records one after the other -/

/-- How the reading goes on. -/
def proceed (r : BlockReader) : Progress → Outcome DecodeError (Node × Cursor)
  | .reading s => r.readOpen s
  | .closed root c => .ofExcept (.ok (root, c))

theorem readOpen_eq (r : BlockReader) (s : Reading) : r.readOpen s = r.step s >>= r.proceed := by
  rw [readOpen]
  split
  · rename_i e h
    rw [Outcome.bind_of_error h]
  · rename_i root c h
    rw [Outcome.bind_of_ok h]
    show _ = Outcome.mk ((r.step s).notices ++ []) (.ok (root, c))
    rw [List.append_nil]
  · rename_i s' h
    rw [Outcome.bind_of_ok h]
    rfl

/-- Where records stand one after the other, the reading goes on behind them, with the notices about the nodes that
begin with them. -/
theorem proceed_records (hr : r.Reads g) {place place' : Place} {front rest : Bytes} {begun : List Begun}
    (h : Records g pos place front place' begun) :
    ∀ {p : Progress}, p.place = place → p.cursor = .inBlock base pos (front ++ rest) →
      ∃ p', r.proceed p = (r.proceed p').after (begun.flatMap Begun.warnings) ∧ p'.place = place' ∧
        p'.cursor = .inBlock base (pos + front.length) rest ∧ p'.titles = p.titles ++ begun.map Begun.title := by
  induction h with
  | nil => exact fun {p} hplace hc => ⟨p, rfl, hplace, hc, (List.append_nil _).symm⟩
  | cons hrecord _ ih =>
    intro p hplace hc
    cases p with
    | closed root c =>
      subst hplace
      cases hrecord
    | reading s =>
      rw [List.append_assoc] at hc
      obtain ⟨p, hstep, hnotices, hplace', hc', htitles⟩ := step_of_record hr hrecord _ hplace hc
      obtain ⟨p', hproceed, hplace'', hc'', htitles'⟩ := ih hplace' hc'
      refine ⟨p', ?_, hplace'', ?_, ?_⟩
      · show r.readOpen s = _
        rw [readOpen_eq, Outcome.bind_of_ok hstep, hproceed, hnotices, Outcome.after_after, List.flatMap_append]
      · rw [hc'', List.length_append, Nat.add_assoc]
      · rw [htitles', htitles, List.map_append, List.append_assoc]

/-! ## The whole tree -/

/-- What is left to do when the root has closed. -/
def finish (p : Node × Cursor) : Outcome DecodeError Node :=
  .ofExcept (expect .finish .missingEnd p.2) >>= fun _ => pure p.1

theorem readTree_eq (r : BlockReader) (c : Cursor) :
    r.readTree c =
      .ofExcept (expect .beginNode .missingBeginNode c) >>= fun c => r.readOpening none c >>= fun p =>
        r.proceed (.reading ⟨p.1, [], p.2⟩) >>= finish := rfl

/-- An error at a token that has to stand at a place is no matter of a text. -/
theorem rejection_of_expect_eq_error {t : Token} {fault : UInt32 → Fault} (hfault : ∀ bs w, rejection bs (fault w) = [])
    (h : expect t fault c = .error e) (bs : Bytes) : rejection bs e.fault = [] := by
  rcases expect_error h with ⟨-, rfl⟩ | ⟨w, _, -, -, rfl⟩
  · rfl
  · exact hfault bs w

/-- Where there is no record any more, the reading is over. -/
theorem proceed_last (hr : r.Reads g) {p : Progress} {rest : Bytes} (hc : p.cursor = .inBlock base pos rest)
    (hlast : NoRecord g pos p.place rest) :
    (∀ root, (r.proceed p >>= finish).result = .ok root →
      p.place = .behind ∧ p.titles = root.titles ∧ (r.proceed p >>= finish).notices = []) ∧
    ∀ e, (r.proceed p >>= finish).result = .error e → (r.proceed p >>= finish).notices = rejection rest e.fault := by
  cases p with
  | reading s =>
    obtain ⟨e, hstep⟩ : ∃ e, (r.step s).result = .error e := by
      cases h : (r.step s).result with
      | error e => exact ⟨e, rfl⟩
      | ok p => exact absurd hlast (not_noRecord_of_step hr hc h)
    have hnotices := notices_of_step_eq_error hr hc hstep
    have hread : r.proceed (.reading s) >>= finish = ⟨rejection rest e.fault, .error e⟩ := by
      show r.readOpen s >>= finish = _
      rw [readOpen_eq, Outcome.bind_of_error hstep, Outcome.bind_of_error rfl, hnotices]
    rw [hread]
    refine ⟨fun root h => ?_, fun e' h => ?_⟩
    · cases h
    · obtain rfl := Except.error.inj h
      rfl
  | closed root c =>
    have hread : r.proceed (.closed root c) >>= finish = finish (root, c) := Outcome.ofExcept_ok_bind _ _
    rw [hread, finish]
    cases hexpect : expect .finish .missingEnd c with
    | ok next =>
      refine ⟨fun root' h => ?_, fun e h => ?_⟩
      · obtain rfl : root = root' := Except.ok.inj h
        exact ⟨rfl, rfl, rfl⟩
      · cases h
    | error e =>
      refine ⟨fun root' h => ?_, fun e' h => ?_⟩
      · cases h
      · obtain rfl : e = e' := Except.error.inj h
        exact (rejection_of_expect_eq_error (fun _ _ => rfl) hexpect rest).symm

/-- Where no root opens, no tree is read. -/
theorem readTree_noRecord (hr : r.Reads g) (base : Nat) {bs : Bytes} (hlast : NoRecord g 0 .start bs) :
    ∃ e, r.readTree (.inBlock base 0 bs) = ⟨rejection bs e.fault, .error e⟩ := by
  rw [readTree_eq]
  cases hexpect : expect .beginNode .missingBeginNode (.inBlock base 0 bs) with
  | error e =>
    refine ⟨e, ?_⟩
    rw [Outcome.ofExcept_error_bind, rejection_of_expect_eq_error (fun _ _ => rfl) hexpect bs]
    rfl
  | ok c =>
    obtain ⟨tail, rfl, rfl⟩ := expect_eq_ok_iff.1 hexpect
    rw [Outcome.ofExcept_ok_bind]
    cases hopening : (r.readOpening none (.inBlock base (0 + 4) tail)).result with
    | error e =>
      refine ⟨e, ?_⟩
      rw [Outcome.bind_of_error hopening, notices_of_readOpening_eq_error hopening Token.beginNode.word]
    | ok p =>
      obtain ⟨n, c⟩ := p
      obtain ⟨opening, rest, name, path, hbs, hopening, -⟩ := (readOpening_eq_ok_iff hr).1 hopening
      exact absurd (.root hopening) (hlast _ _ _ _ hbs)

/-- Where one opens, the reading goes on behind the opening. -/
theorem readTree_root (hr : r.Reads g) {opening : Bytes} {name path : String}
    (hopening : Format.IsOpening g none 0 opening name path) (rest : Bytes) :
    r.readTree (.inBlock base 0 (opening ++ rest)) =
      (r.proceed (.reading ⟨{ name, path }, [], .inBlock base (0 + opening.length) rest⟩) >>= finish).after
        (Begun.warnings ⟨storedText opening, name, path⟩) := by
  obtain ⟨tail, htail⟩ := hopening.exists_tail
  have hblock : opening ++ rest = word32 Token.beginNode.word ++ (tail ++ rest) := by rw [htail, List.append_assoc]
  have hexpect : expect .beginNode .missingBeginNode (.inBlock base 0 (opening ++ rest)) =
      .ok (.inBlock base (0 + 4) (tail ++ rest)) := expect_eq_ok_iff.2 ⟨_, hblock, rfl⟩
  have hroot : (r.readOpening none (.inBlock base (0 + 4) (tail ++ rest))).result =
      .ok ({ name, path }, .inBlock base (0 + opening.length) rest) :=
    (readOpening_eq_ok_iff hr).2 ⟨opening, rest, name, path, hblock.symm, hopening, rfl, rfl⟩
  have hnotices := notices_of_readOpening_eq_ok hroot Token.beginNode.word
  have htext : storedText (word32 Token.beginNode.word ++ (tail ++ rest)) = storedText opening := by
    rw [← hblock, hopening.storedText_append]
  rw [readTree_eq, hexpect, Outcome.ofExcept_ok_bind, Outcome.bind_of_ok hroot, hnotices]
  show (_ >>= finish).after (Begun.warnings ⟨storedText (word32 _ ++ (tail ++ rest)), name, path⟩) = _
  rw [htext]

/-- The notices of the reading of a tree are those about the nodes that begin with the records of its block, as far as
there are records. If the reading succeeds, these are the nodes of the tree; if it fails, at most the text that was no
path is worth a notice more. -/
theorem readTree_notices (hr : r.Reads g) (base : Nat) {block front rest : Bytes} {place : Place} {begun : List Begun}
    (h : Longest g block front rest place begun) :
    (∀ root, (r.readTree (.inBlock base 0 block)).result = .ok root →
      place = .behind ∧ begun.map Begun.title = root.titles ∧
        (r.readTree (.inBlock base 0 block)).notices = begun.flatMap Begun.warnings) ∧
    ∀ e, (r.readTree (.inBlock base 0 block)).result = .error e →
      (r.readTree (.inBlock base 0 block)).notices = begun.flatMap Begun.warnings ++ rejection rest e.fault := by
  obtain ⟨rfl, hrecords, hlast⟩ := h
  cases hrecords with
  | nil =>
    obtain ⟨e, hread⟩ := readTree_noRecord hr base hlast
    rw [List.nil_append, hread]
    refine ⟨fun root h => ?_, fun e' h => ?_⟩
    · cases h
    · obtain rfl : e = e' := Except.error.inj h
      rfl
  | @cons _ _ _ _ opening more _ begun hrecord hmore =>
    cases hrecord with
    | @root _ name path hopening =>
      let first : Reading := ⟨{ name, path }, [], .inBlock base (0 + opening.length) (more ++ rest)⟩
      obtain ⟨p, hproceed, hplace, hc, htitles⟩ := proceed_records hr hmore (p := .reading first) rfl rfl
      have hfirst : (Progress.reading first).titles = [(name, path)] := List.append_nil _
      rw [hfirst] at htitles
      rw [List.length_append, ← Nat.zero_add opening.length] at hlast
      obtain ⟨hok, herror⟩ := proceed_last hr hc (hplace ▸ hlast)
      rw [List.append_assoc, readTree_root hr hopening, hproceed, Outcome.after_bind, Outcome.after_after]
      refine ⟨fun root h => ?_, fun e h => ?_⟩
      · obtain ⟨hbehind, hroot, hnotices⟩ := hok root h
        refine ⟨hplace.symm.trans hbehind, ?_, ?_⟩
        · rw [← hroot, htitles]
          rfl
        · show _ ++ Outcome.notices (r.proceed p >>= finish) = _
          rw [hnotices, List.append_nil]
          rfl
      · show _ ++ Outcome.notices (r.proceed p >>= finish) = _
        rw [herror e h]
        rfl

end BlockReader
end DeviceTree
