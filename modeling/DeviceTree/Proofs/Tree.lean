import DeviceTree.Proofs.Reader

/-!
# What the structure block holds

Reading the open nodes and the content of a node as the grammar has it are two views of the same bytes. A
content that is there is read into the innermost node (`readOpen_content`); a node that is read to its end has
had a content (`content_of_readOpen`), by induction on the bytes that are left, since a child takes the reading
into itself and hands it back (`resume`).

* `readTree_eq_ok_iff`: the trees that are read are the trees of the grammar.
-/

namespace DeviceTree

open BigEndian (word32)

/-- The node with more properties and children, after those it has. -/
def Node.extend (n : Node) (properties : List Property) (children : List Node) : Node :=
  { n with properties := n.properties ++ properties, children := n.children ++ children }

theorem Node.extend_nil (n : Node) : n.extend [] [] = n := by
  cases n
  simp [extend]

theorem Node.extend_addProperty (n : Node) (p : Property) (properties : List Property) (children : List Node) :
    (n.addProperty p).extend properties children = n.extend (p :: properties) children := by
  simp [extend, addProperty]

theorem Node.extend_pushChild (n child : Node) (properties : List Property) (children : List Node) :
    (n.pushChild child).extend properties children = n.extend properties (child :: children) := by
  simp [extend, pushChild]

namespace BlockReader

variable {r : BlockReader} {g : Format.Context} {base : Nat}

/-- How the reading goes on when the innermost node has closed. -/
def resume (r : BlockReader) (closed : Node) (outer : List Node) (c : Cursor) :
    Except DecodeError (Node × Cursor) :=
  match outer with
  | [] => .ok (closed, c)
  | parent :: outer => (r.readOpen ⟨parent.pushChild closed, outer, c⟩).result

/-- The end of the innermost node. -/
theorem readOpen_endNode (hr : r.Reads g) (inner : Node) (outer : List Node) (pos : Nat) (rest : Bytes) :
    (r.readOpen ⟨inner, outer, .inBlock base pos (word32 Token.endNode.word ++ rest)⟩).result =
      r.resume inner outer (.inBlock base (pos + 4) rest) := by
  cases outer with
  | nil => exact readOpen_of_closed ((step_eq_ok_iff hr).2 (.closed rfl))
  | cons parent outer => exact readOpen_of_reading ((step_eq_ok_iff hr).2 (.endNode rfl))

/-- A content that is there is read into the innermost node. -/
theorem readOpen_content (hr : r.Reads g) {depth pos : Nat} {path : String} {content : Bytes}
    {properties : List Property} {children : List Node}
    (h : Format.IsContent g depth path pos content properties children) {inner : Node} {outer : List Node}
    (hpath : inner.path = path) (hdepth : outer.length + 1 = depth) (rest : Bytes) :
    (r.readOpen ⟨inner, outer, .inBlock base pos (content ++ rest)⟩).result =
      (r.readOpen ⟨inner.extend properties children, outer, .inBlock base (pos + content.length) rest⟩).result := by
  induction h generalizing inner outer rest with
  | nil => rw [Node.extend_nil]; rfl
  | @property depth path pos record more p properties children hp _ ih =>
    have hstep : (r.step ⟨inner, outer, .inBlock base pos (record ++ (more ++ rest))⟩).result = .ok (.reading _) :=
      (step_eq_ok_iff hr).2 (.property hp)
    have hpath' : (inner.addProperty p).path = path := hpath
    rw [List.append_assoc, readOpen_of_reading hstep, ih hpath' hdepth, Node.extend_addProperty,
      List.length_append, Nat.add_assoc]
  | @child depth path name path' pos opening content more properties properties' children children' hlevel ho
      hc hm ihc ihm =>
    subst hdepth
    have hopen : (r.step ⟨inner, outer,
        .inBlock base pos (opening ++ (content ++ (word32 Token.endNode.word ++ (more ++ rest))))⟩).result =
          .ok (.reading _) :=
      (step_eq_ok_iff hr).2 (.beginNode hlevel (hpath ▸ ho))
    have hpath' : (inner.pushChild (({ name, path := path' } : Node).extend properties' children')).path = path :=
      hpath
    simp only [List.append_assoc]
    rw [readOpen_of_reading hopen, ihc rfl rfl, readOpen_endNode hr]
    show (r.readOpen ⟨inner.pushChild _, outer, _⟩).result = _
    rw [ihm hpath' rfl, Node.extend_pushChild]
    simp [Node.extend, Nat.add_assoc]

/-- A node that is read to its end has had a content. -/
theorem content_of_readOpen (hr : r.Reads g) {root : Node} {c : Cursor} (bs : Bytes) :
    ∀ {inner : Node} {outer : List Node} {pos : Nat},
      (r.readOpen ⟨inner, outer, .inBlock base pos bs⟩).result = .ok (root, c) →
      ∃ content rest properties children, bs = content ++ word32 Token.endNode.word ++ rest ∧
        Format.IsContent g (outer.length + 1) inner.path pos content properties children ∧
        r.resume (inner.extend properties children) outer (.inBlock base (pos + content.length + 4) rest) =
          .ok (root, c) := by
  induction h : bs.length using Nat.strongRecOn generalizing bs with
  | ind n ih =>
    intro inner outer pos hread
    subst h
    cases hs : (r.step ⟨inner, outer, .inBlock base pos bs⟩).result with
    | error e =>
      rw [readOpen_of_error hs] at hread
      cases hread
    | ok p =>
      cases (step_eq_ok_iff hr).1 hs with
      | @closed rest houter =>
        subst houter
        rw [readOpen_of_closed hs] at hread
        exact ⟨[], rest, [], [], rfl, .nil, by rw [Node.extend_nil]; exact hread⟩
      | @endNode rest parent outer' houter =>
        subst houter
        rw [readOpen_of_reading hs] at hread
        exact ⟨[], rest, [], [], rfl, .nil, by rw [Node.extend_nil]; exact hread⟩
      | @property record rest p hp =>
        have hshort : rest.length < (record ++ rest).length := step_shorter hs
        rw [readOpen_of_reading hs] at hread
        obtain ⟨content, rest', properties, children, rfl, hcontent, hresume⟩ := ih _ hshort rest rfl hread
        rw [Node.extend_addProperty] at hresume
        refine ⟨record ++ content, rest', p :: properties, children, by simp, .property hp hcontent, ?_⟩
        rw [List.length_append, ← Nat.add_assoc]
        exact hresume
      | @beginNode opening rest name path hdepth ho =>
        have hshort : rest.length < (opening ++ rest).length := step_shorter hs
        rw [readOpen_of_reading hs] at hread
        -- first the new node up to its end, then what is left of the one around it
        obtain ⟨content, rest', properties', children', rfl, hcontent, hresume⟩ := ih _ hshort rest rfl hread
        have hshort' : rest'.length < (opening ++ (content ++ word32 Token.endNode.word ++ rest')).length := by
          simp only [List.length_append] at hshort ⊢
          omega
        obtain ⟨more, rest'', properties, children, rfl, hmore, hresume'⟩ := ih _ hshort' rest' rfl hresume
        rw [Node.extend_pushChild] at hresume'
        refine ⟨_, rest'', properties, _ :: children, ?_, .child hdepth ho hcontent hmore, ?_⟩
        · simp
        · have hlen : pos + (opening ++ content ++ word32 Token.endNode.word ++ more).length + 4 =
              pos + opening.length + content.length + 4 + more.length + 4 := by
            simp only [List.length_append, BigEndian.length_word32]
            omega
          rw [hlen]
          simpa [Node.extend] using hresume'

theorem expect_eq_ok_iff {t : Token} {fault : UInt32 → Fault} {pos : Nat} {bs : Bytes} {c : Cursor} :
    expect t fault (.inBlock base pos bs) = .ok c ↔
      ∃ rest, bs = word32 t.word ++ rest ∧ c = .inBlock base (pos + 4) rest := by
  unfold expect
  refine ⟨fun h => ?_, fun h => ?_⟩
  · cases hw : (Cursor.inBlock base pos bs).word with
    | error e => rw [hw] at h; cases h
    | ok p =>
      obtain ⟨word, next⟩ := p
      obtain ⟨rest, rfl, rfl⟩ := Cursor.word_eq_ok_iff.1 hw
      rw [hw] at h
      change (if word = t.word then _ else _) = _ at h
      split at h
      · rename_i heq
        exact ⟨rest, by rw [heq], (Except.ok.inj h).symm⟩
      · cases h
  · obtain ⟨rest, rfl, rfl⟩ := h
    rw [Cursor.word_eq_ok_iff.2 ⟨rest, rfl, rfl⟩]
    show (if t.word = t.word then _ else _) = _
    rw [if_pos rfl]
    rfl

theorem result_readTree (r : BlockReader) (c : Cursor) :
    (r.readTree c).result =
      expect .beginNode .missingBeginNode c >>= fun c => (r.readOpening none c).result >>= fun p =>
        (r.readOpen ⟨p.1, [], p.2⟩).result >>= fun q =>
          expect .finish .missingEnd q.2 >>= fun _ => .ok q.1 := by
  unfold readTree
  simp only [Outcome.result_bind]
  rfl

theorem readTree_eq_ok_iff (hr : r.Reads g) {bs : Bytes} {root : Node} :
    (r.readTree (.start base bs)).result = .ok root ↔ Format.IsTree g bs root := by
  rw [result_readTree, Cursor.start_eq_inBlock]
  refine ⟨fun h => ?_, fun h => ?_⟩
  · obtain ⟨c₁, h₁, h⟩ := bind_eq_ok_iff.1 h
    obtain ⟨⟨n, c₂⟩, h₂, h⟩ := bind_eq_ok_iff.1 h
    obtain ⟨⟨root', c₃⟩, h₃, h⟩ := bind_eq_ok_iff.1 h
    obtain ⟨c₄, h₄, h⟩ := bind_eq_ok_iff.1 h
    obtain rfl := Except.ok.inj h
    obtain ⟨bs₁, rfl, rfl⟩ := expect_eq_ok_iff.1 h₁
    obtain ⟨opening, bs₂, name, path, hbs, ho, rfl, rfl⟩ := (readOpening_eq_ok_iff hr).1 h₂
    obtain ⟨content, bs₃, properties, children, rfl, hcontent, hclosed⟩ := content_of_readOpen hr bs₂ h₃
    obtain ⟨rfl, rfl⟩ := Prod.mk.inj (Except.ok.inj hclosed)
    obtain ⟨rest, rfl, -⟩ := expect_eq_ok_iff.1 h₄
    rw [Nat.zero_add] at hcontent
    rw [hbs]
    simpa [Node.extend] using Format.IsTree.intro opening content rest name path properties children ho hcontent
  · obtain ⟨opening, content, rest, name, path, properties, children, ho, hcontent⟩ := h
    obtain ⟨tail, htail⟩ := ho.exists_tail
    let after : Bytes := content ++ (word32 Token.endNode.word ++ (word32 Token.finish.word ++ rest))
    have h₁ : expect .beginNode .missingBeginNode (.inBlock base 0 (opening ++ after)) =
        .ok (.inBlock base 4 (tail ++ after)) :=
      expect_eq_ok_iff.2 ⟨tail ++ after, by rw [htail, List.append_assoc], rfl⟩
    have h₂ : (r.readOpening none (.inBlock base (0 + 4) (tail ++ after))).result =
        .ok ({ name, path }, .inBlock base (0 + opening.length) after) :=
      (readOpening_eq_ok_iff hr).2 ⟨opening, after, name, path, by rw [htail, List.append_assoc], ho, rfl, rfl⟩
    have h₃ : (r.readOpen ⟨{ name, path }, [], .inBlock base opening.length after⟩).result =
        .ok ({ name, path, properties, children },
          .inBlock base (opening.length + content.length + 4) (word32 Token.finish.word ++ rest)) := by
      rw [readOpen_content hr hcontent rfl rfl, readOpen_endNode hr]
      simp [resume, Node.extend]
    have h₄ : expect .finish .missingEnd (.inBlock base (opening.length + content.length + 4)
        (word32 Token.finish.word ++ rest)) = .ok _ := expect_eq_ok_iff.2 ⟨rest, rfl, rfl⟩
    have hbs : opening ++ content ++ word32 Token.endNode.word ++ word32 Token.finish.word ++ rest =
        opening ++ after := by simp [after]
    rw [hbs]
    simp only [Nat.zero_add] at h₂
    exact bind_eq_ok_iff.2 ⟨_, h₁, bind_eq_ok_iff.2 ⟨_, h₂, bind_eq_ok_iff.2 ⟨_, h₃, bind_eq_ok_iff.2 ⟨_, h₄, rfl⟩⟩⟩⟩

end BlockReader
end DeviceTree
