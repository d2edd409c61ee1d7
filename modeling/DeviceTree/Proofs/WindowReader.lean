import DeviceTree.Proofs.Rereading
import DeviceTree.Proofs.TextSlices

/-!
# Reading the structure block by positions

The reader of a structure block once more, with windows in place of cursors. Every token leaves a window in its block
and at a multiple of four bytes, fewer than the most nodes open, and each open path bounded by the bytes before the
window (`WindowReading.Sound`). From that, a token is read as it is by cursors (`step_agrees`), without a trap, and so
is a whole block (`readOpen_agrees`): it has no more tokens than bytes.
-/

namespace DeviceTree

/-- What a structure block is read with: the features of its version and the window of the string block. -/
structure WindowReader where
  features : Features
  strings : Window
deriving DecidableEq, Repr

/-- Where a reading by positions stands: the innermost open node, the open nodes around it, and the window. -/
structure WindowReading where
  inner : Node
  outer : List Node
  window : Window
deriving DecidableEq, Repr

/-- What reading one token by positions leads to. -/
inductive WindowProgress where
  /-- There are still open nodes. -/
  | reading (s : WindowReading)
  /-- The last open node has closed. -/
  | closed (root : Node) (w : Window)
deriving DecidableEq, Repr

namespace WindowReader

open Run (add)

/-- Goes on to where a value of the given size starts. -/
def skipToValue (r : WindowReader) (size : Nat) (w : Window) : Run Window :=
  if r.features.alignedValues ∧ 8 ≤ size then w.realign 8 else .ok w

/-- The property whose record follows. -/
def readProperty (r : WindowReader) (w : Window) : Run (Property × Window) := do
  let (size, w) ← w.word
  let (offset, w) ← w.word
  let name ← r.strings.name offset
  let w ← r.skipToValue size.toNat w
  let (value, w) ← w.data size.toNat
  return ({ name, value }, w)

/-- The node stored as `id` inside the node with the path `parent`, or inside no other. -/
def nodeStoredAs (r : WindowReader) (parent : Option String) (id : String) : Run (Option Node) := do
  if r.features.fullPath then
    return (← Run.nameWithin parent id).map fun name => { name, path := id }
  else return some { name := id, path := ← Run.join (parent.getD "/") id }

/-- The node that opens here, still without properties and children. -/
def readOpening (r : WindowReader) (parent : Option String) (w : Window) : Run (Node × Window) := do
  let (bytes, next) ← w.text
  let id := Utf8.lossy bytes
  match ← r.nodeStoredAs parent id with
  | none => throw (w.error (.pathMismatch id (parent.getD "")))
  | some n =>
    let _ ← Run.isRegular n.name
    return (n, next)

/-- Reads one token and what belongs to it. -/
def step (r : WindowReader) (s : WindowReading) : Run WindowProgress := do
  let (word, next) ← s.window.word
  match Token.ofWord? word with
  | none => throw (s.window.error (.badToken word))
  | some .finish => throw (s.window.error .prematureEnd)
  | some .endNode =>
    match s.outer with
    | [] => return .closed s.inner next
    | parent :: outer => return .reading ⟨parent.pushChild s.inner, outer, next⟩
  | some .property =>
    let (p, next) ← r.readProperty next
    return .reading ⟨s.inner.addProperty p, s.outer, next⟩
  | some .beginNode =>
    let depth ← add s.outer.length 1
    if maxNesting ≤ depth then throw (next.error .nestingTooDeep)
    let (n, next) ← r.readOpening (some s.inner.path) next
    return .reading ⟨n, s.inner :: s.outer, next⟩

/-- Reads on until the last open node closes, for a number of tokens at most. -/
def readOpen (r : WindowReader) : (tokens : Nat) → WindowReading → Run (Node × Window)
  | 0, _ => throw (.trap .endless)
  | tokens + 1, s => do
    match ← r.step s with
    | .closed root w => return (root, w)
    | .reading s => r.readOpen tokens s

/-- The window after a token that has to stand here. -/
def expect (t : Token) (fault : UInt32 → Fault) (w : Window) : Run Window := do
  let (word, next) ← w.word
  if word = t.word then return next else throw (w.error (fault word))

/-- Reads the root, whose opening token stands first in the block, and the token that ends the block. -/
def readTree (r : WindowReader) (w : Window) : Run Node := do
  let w ← expect .beginNode .missingBeginNode w
  let (root, w) ← r.readOpening none w
  let (root, w) ← r.readOpen (w.limit - w.pos + 1) ⟨root, [], w⟩
  let _ ← expect .finish .missingEnd w
  return root

/-- The reader by cursors with the same features and string block. -/
def reader (r : WindowReader) : BlockReader :=
  ⟨r.features, r.strings.stringBlock⟩

end WindowReader

/-- The reading by cursors that stands at the same place. -/
def WindowReading.reading (s : WindowReading) : BlockReader.Reading :=
  ⟨s.inner, s.outer, s.window.cursor⟩

/-- The same progress of a reading by cursors. -/
def WindowProgress.progress : WindowProgress → BlockReader.Progress
  | reading s => .reading s.reading
  | closed root w => .closed root w.cursor

/-- What every token finds. Each open node was read from bytes before the window, which bound its path. -/
structure WindowReading.Sound (s : WindowReading) : Prop where
  window : s.window.Sound
  aligned : s.window.Aligned
  depth : s.outer.length < maxNesting
  paths : ∀ n ∈ s.inner :: s.outer, Utf8.size n.path ≤ 4 * s.window.pos

/-- What every token leaves. -/
def WindowProgress.Sound : WindowProgress → Prop
  | reading s => s.Sound
  | closed _ w => w.Sound ∧ w.Aligned

namespace WindowReader

variable {r : WindowReader} {w : Window}

theorem skipToValue_agrees (h : w.Sound) (haligned : w.Aligned) (size : Nat) :
    Agrees (fun w' => w.Ahead w' ∧ w'.Aligned) Window.cursor (r.skipToValue size w)
      (r.reader.skipToValue size w.cursor) := by
  unfold skipToValue BlockReader.skipToValue
  show Agrees _ _ _ (if r.features.alignedValues ∧ 8 ≤ size then _ else _)
  split
  · exact w.realign_agrees h (.inr rfl)
  · exact .ok ⟨⟨rfl, rfl, rfl, Nat.le_refl _, h⟩, haligned⟩

theorem readProperty_agrees (hr : r.strings.Sound) (h : w.Sound) (haligned : w.Aligned) :
    Agrees (fun p => w.Ahead p.2 ∧ p.2.Aligned) (fun p => (p.1, p.2.cursor)) (r.readProperty w)
      (r.reader.readProperty w.cursor) := by
  unfold readProperty BlockReader.readProperty
  refine (w.word_agrees h haligned).bind fun ⟨size, w₁⟩ ⟨_, h₁, ha₁⟩ => ?_
  refine (w₁.word_agrees h₁.sound ha₁).bind fun ⟨offset, w₂⟩ ⟨_, h₂, ha₂⟩ => ?_
  refine (r.strings.name_agrees hr offset).bind fun name _ => ?_
  refine (skipToValue_agrees h₂.sound ha₂ size.toNat).bind fun w₃ ⟨h₃, ha₃⟩ => ?_
  refine (w₃.data_agrees h₃.sound size.toNat).bind fun ⟨value, w₄⟩ ⟨h₄, ha₄⟩ => ?_
  exact .ok (a := (({ name, value } : Property), w₄)) ⟨((h₁.trans h₂).trans h₃).trans h₄, ha₄⟩

theorem nodeStoredAs_eq {parent : Option String} {id : String}
    (hsize : Utf8.size (parent.getD "/") + Utf8.size id + 1 < 0x10000000000000000) :
    r.nodeStoredAs parent id = .ok (r.reader.nodeStoredAs parent id) := by
  unfold nodeStoredAs BlockReader.nodeStoredAs
  show _ = Except.ok (if r.features.fullPath then _ else _)
  split
  · rw [Run.nameWithin_eq parent (by omega)]
    rfl
  · rw [Run.join_eq hsize]
    rfl

/-- The name and the path of a node are not much longer than what they were stored as. -/
theorem size_nodeStoredAs {r : BlockReader} {parent : Option String} {id : String} {n : Node}
    (h : r.nodeStoredAs parent id = some n) :
    Utf8.size n.name ≤ Utf8.size id ∧ Utf8.size n.path ≤ Utf8.size (parent.getD "/") + Utf8.size id + 1 := by
  unfold BlockReader.nodeStoredAs at h
  split at h
  · obtain ⟨name, hname, rfl⟩ := Option.map_eq_some_iff.1 h
    exact ⟨Run.size_nameWithin?_le hname, by dsimp only; omega⟩
  · obtain rfl := Option.some.inj h
    exact ⟨Nat.le_refl _, Run.size_join_le _ id⟩

theorem readOpening_agrees (h : w.Sound) {parent : Option String}
    (hparent : Utf8.size (parent.getD "/") ≤ 4 * w.pos + 1) :
    Agrees (fun p => w.Ahead p.2 ∧ p.2.Aligned ∧ Utf8.size p.1.path ≤ 4 * p.2.pos) (fun p => (p.1, p.2.cursor))
      (r.readOpening parent w) (r.reader.readOpening parent w.cursor).result := by
  rw [BlockReader.result_readOpening]
  unfold readOpening
  refine (w.text_agrees h).bind fun ⟨bytes, next⟩ hread => ?_
  obtain ⟨hahead, haligned, hlength⟩ : w.Ahead next ∧ next.Aligned ∧ w.pos + bytes.length + 1 ≤ next.pos := hread
  dsimp only
  have hlossy := Utf8.size_lossy_le bytes
  have hpos : next.pos < 0x100000000 := by
    obtain ⟨-, hpos, hlimit⟩ := hahead.sound.inBlock
    have hsize := hahead.sound.size
    omega
  rw [nodeStoredAs_eq (by omega), ok_bind]
  cases hn : r.reader.nodeStoredAs parent (Utf8.lossy bytes) with
  | none => exact .fault _
  | some n =>
    obtain ⟨hname, hpath⟩ := size_nodeStoredAs hn
    dsimp only
    rw [Run.isRegular_eq (by omega), ok_bind]
    exact .ok (a := (n, next)) ⟨hahead, haligned, by dsimp only; omega⟩

/-- What a token finds is kept further on, for the same paths. -/
theorem paths_of_ahead {w' : Window} {ns ms : List Node} (hahead : w.Ahead w')
    (hpaths : ∀ n ∈ ns, Utf8.size n.path ≤ 4 * w.pos) (h : ms.map Node.path = ns.map Node.path) :
    ∀ m ∈ ms, Utf8.size m.path ≤ 4 * w'.pos := by
  intro m hm
  have hmem : m.path ∈ ns.map Node.path := h ▸ List.mem_map_of_mem hm
  obtain ⟨n, hn, hpath⟩ := List.mem_map.1 hmem
  have := hpaths n hn
  have := hahead.pos
  rw [← hpath]
  omega

theorem step_agrees (hr : r.strings.Sound) {s : WindowReading} (hs : s.Sound) :
    Agrees WindowProgress.Sound WindowProgress.progress (r.step s) (r.reader.step s.reading).result := by
  obtain ⟨inner, outer, w⟩ := s
  obtain ⟨hw, ha, hdepth, hpaths⟩ := hs
  dsimp only at hw ha hdepth hpaths
  rw [BlockReader.result_step]
  unfold step
  refine (w.word_agrees hw ha).bind fun ⟨word, next⟩ hread => ?_
  obtain ⟨-, hahead, haligned⟩ : next = w.forward 4 ∧ w.Ahead next ∧ next.Aligned := hread
  dsimp only
  cases Token.ofWord? word with
  | none => exact .fault _
  | some t =>
    cases t with
    | finish => exact .fault _
    | endNode =>
      cases outer with
      | nil => exact .ok (a := WindowProgress.closed inner next) ⟨hahead.sound, haligned⟩
      | cons parent outer =>
        refine .ok (a := WindowProgress.reading ⟨parent.pushChild inner, outer, next⟩)
          ⟨hahead.sound, haligned, ?_, ?_⟩
        · exact Nat.lt_of_succ_lt hdepth
        · exact paths_of_ahead hahead (List.forall_mem_cons.1 hpaths).2 rfl
    | property =>
      refine (readProperty_agrees hr hahead.sound haligned).map fun ⟨p, next'⟩ ⟨hahead', haligned'⟩ => ⟨?_, rfl⟩
      exact ⟨hahead'.sound, haligned', hdepth, paths_of_ahead (hahead.trans hahead') hpaths rfl⟩
    | beginNode =>
      have hmax : maxNesting = 256 := rfl
      dsimp only [BlockReader.stepAt, WindowReading.reading]
      rw [Run.add_eq_ok (by omega), ok_bind]
      by_cases hdeep : maxNesting ≤ outer.length + 1
      · rw [if_pos hdeep, if_pos hdeep]
        exact .fault _
      · rw [if_neg hdeep, if_neg hdeep]
        -- the parent's path was read before this token, so that bounds what the child's path can take
        have hparent : Utf8.size ((some inner.path).getD "/") ≤ 4 * next.pos + 1 := by
          have := hpaths inner List.mem_cons_self
          have := hahead.pos
          show Utf8.size inner.path ≤ _
          omega
        refine (readOpening_agrees hahead.sound hparent).map fun ⟨n, next'⟩ ⟨hahead', haligned', hpath⟩ => ⟨?_, rfl⟩
        refine ⟨hahead'.sound, haligned', Nat.not_le.1 hdeep, List.forall_mem_cons.2 ⟨hpath, ?_⟩⟩
        exact paths_of_ahead (hahead.trans hahead') hpaths rfl

/-- Reading on by positions, with at least as many tokens allowed as there are bytes left. -/
theorem readOpen_agrees (hr : r.strings.Sound) (tokens : Nat) :
    ∀ s : WindowReading, s.Sound → s.window.cursor.rest.length < tokens →
      Agrees (fun p => p.2.Sound ∧ p.2.Aligned) (fun p => (p.1, p.2.cursor)) (r.readOpen tokens s)
        (r.reader.readOpen s.reading).result := by
  induction tokens with
  | zero => exact fun _ _ h => absurd h (Nat.not_lt_zero _)
  | succ tokens ih =>
    intro s hs hlength
    have hstep := step_agrees hr hs
    unfold readOpen
    generalize r.step s = x at hstep
    generalize hy : (r.reader.step s.reading).result = y at hstep
    cases hstep with
    | fault e =>
      rw [BlockReader.readOpen_of_error hy]
      exact .fault e
    | @ok progress h =>
      cases progress with
      | closed root w =>
        rw [BlockReader.readOpen_of_closed hy]
        exact .ok (a := (root, w)) h
      | reading s' =>
        have hshorter : s'.window.cursor.rest.length < s.window.cursor.rest.length := BlockReader.step_shorter hy
        rw [BlockReader.readOpen_of_reading hy]
        exact ih s' h (by omega)

theorem expect_agrees (h : w.Sound) (haligned : w.Aligned) (t : Token) (fault : UInt32 → Fault) :
    Agrees (fun w' => w'.Sound ∧ w'.Aligned) Window.cursor (expect t fault w)
      (BlockReader.expect t fault w.cursor) := by
  unfold expect BlockReader.expect
  refine (w.word_agrees h haligned).bind fun ⟨word, next⟩ ⟨_, hahead, haligned'⟩ => ?_
  dsimp only
  split
  · exact .ok ⟨hahead.sound, haligned'⟩
  · exact .fault _

theorem readTree_agrees (hr : r.strings.Sound) (h : w.Sound) (haligned : w.Aligned) :
    Agrees (fun _ => True) id (r.readTree w) (r.reader.readTree w.cursor).result := by
  rw [BlockReader.result_readTree]
  unfold readTree
  refine (expect_agrees h haligned _ _).bind fun w₁ ⟨h₁, _⟩ => ?_
  have hroot : Utf8.size ((none : Option String).getD "/") ≤ 4 * w₁.pos + 1 := Nat.le_add_left ..
  refine (readOpening_agrees h₁ hroot).bind fun ⟨root, w₂⟩ ⟨h₂, ha₂, hpath⟩ => ?_
  have hs : WindowReading.Sound ⟨root, [], w₂⟩ :=
    ⟨h₂.sound, ha₂, show 0 < maxNesting by decide, List.forall_mem_cons.2 ⟨hpath, nofun⟩⟩
  have hlength : w₂.cursor.rest.length < w₂.limit - w₂.pos + 1 := by
    rw [h₂.sound.length_rest]
    exact Nat.lt_succ_self _
  refine (readOpen_agrees hr _ _ hs hlength).bind fun ⟨root, w₃⟩ ⟨h₃, ha₃⟩ => ?_
  exact (expect_agrees h₃ ha₃ _ _).bind fun _ _ => .ok (a := root) trivial

end WindowReader

end DeviceTree
