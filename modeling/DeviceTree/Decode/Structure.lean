import DeviceTree.Decode.Cursor
import DeviceTree.Decode.StringBlock
import DeviceTree.Node
import DeviceTree.Notice
import DeviceTree.Token

/-!
# Reading the structure block

The reader goes through the block token by token and keeps the nodes that are open (`Reading`). A token that
opens a node puts it inside the innermost one, a property goes to the innermost node, and a token that closes a
node hands it to the node around it (`step`). The reading ends when the root closes (`readOpen`).

* `step_shorter`: every token takes bytes from the block, so the reading comes to an end.
-/

namespace DeviceTree

/-- How many nodes may be open at once. -/
def maxNesting : Nat := 256

/-- What a structure block is read with: the features of its version and the string block. -/
structure BlockReader where
  features : Features
  strings : StringBlock
deriving DecidableEq, Repr

namespace BlockReader

/-- Goes on to where a value of the given size starts. -/
def skipToValue (r : BlockReader) (size : Nat) (c : Cursor) : Except DecodeError Cursor :=
  if r.features.alignedValues ∧ 8 ≤ size then c.realign 8 else .ok c

/-- The property whose record follows. -/
def readProperty (r : BlockReader) (c : Cursor) : Except DecodeError (Property × Cursor) := do
  let (size, c) ← c.word
  let (offset, c) ← c.word
  let name ← r.strings.name offset
  let c ← r.skipToValue size.toNat c
  let (value, c) ← c.data size.toNat
  return ({ name, value }, c)

/-- The node stored as `id` inside the node with the path `parent`, or inside no other. It is stored by its
path or by its name; with its path only if that fits the path of the node around it. -/
def nodeStoredAs (r : BlockReader) (parent : Option String) (id : String) : Option Node :=
  if r.features.fullPath then
    (Path.nameWithin? parent id).map fun name => { name, path := id }
  else some { name := id, path := Path.join (parent.getD "/") id }

/-- The node that opens here, still without properties and children. -/
def readOpening (r : BlockReader) (parent : Option String) (c : Cursor) :
    Outcome DecodeError (Node × Cursor) :=
  match c.text with
  | .error e => .ofExcept (.error e)
  | .ok (bytes, next) =>
    let id := Utf8.lossy bytes
    .after (if Utf8.isValid bytes then [] else [.replacedName id]) <|
      match r.nodeStoredAs parent id with
      | none => .ofExcept (.error (c.error (.pathMismatch id (parent.getD ""))))
      | some n => ⟨if NodeName.isRegular n.name then [] else [.irregularName n.name], .ok (n, next)⟩

theorem skipToValue_shorter {r : BlockReader} {size : Nat} {c c' : Cursor}
    (h : r.skipToValue size c = .ok c') : c'.rest.length ≤ c.rest.length := by
  unfold skipToValue at h
  split at h
  · exact Cursor.realign_shorter h
  · cases h
    exact Nat.le_refl _

theorem readProperty_eq_ok {r : BlockReader} {c c' : Cursor} {p : Property}
    (h : r.readProperty c = .ok (p, c')) :
    ∃ size offset c₁ c₂ c₃, c.word = .ok (size, c₁) ∧ c₁.word = .ok (offset, c₂) ∧
      r.strings.name offset = .ok p.name ∧ r.skipToValue size.toNat c₂ = .ok c₃ ∧
      c₃.data size.toNat = .ok (p.value, c') ∧ p.label = none := by
  unfold readProperty at h
  simp only [bind, Except.bind, pure, Except.pure] at h
  repeat' split at h
  all_goals try cases h
  rename_i w₁ h₁ _ w₂ h₂ _ name h₃ _ c₃ h₄ _ v h₅
  exact ⟨w₁.1, w₂.1, w₁.2, w₂.2, c₃, h₁, h₂, h₃, h₄, h₅, rfl⟩

theorem readProperty_shorter {r : BlockReader} {c c' : Cursor} {p : Property}
    (h : r.readProperty c = .ok (p, c')) : c'.rest.length < c.rest.length := by
  obtain ⟨_, _, _, _, _, h₁, h₂, -, h₄, h₅, -⟩ := readProperty_eq_ok h
  have := Cursor.word_shorter h₁
  have := Cursor.word_shorter h₂
  have := skipToValue_shorter h₄
  have := Cursor.data_shorter h₅
  omega

theorem readOpening_shorter {r : BlockReader} {parent : Option String} {c c' : Cursor} {n : Node}
    (h : (r.readOpening parent c).result = .ok (n, c')) : c'.rest.length < c.rest.length := by
  unfold readOpening at h
  split at h
  · cases h
  · rename_i bytes next ht
    simp only [Outcome.after] at h
    split at h
    · cases h
    · obtain ⟨-, rfl⟩ := Prod.mk.inj (Except.ok.inj h)
      exact Cursor.text_shorter ht

/-- Where a reading stands: the innermost open node with what it has so far, the open nodes around it, the
nearest first, and the cursor. -/
structure Reading where
  inner : Node
  outer : List Node
  cursor : Cursor
deriving DecidableEq, Repr

/-- What reading one token leads to. -/
inductive Progress where
  /-- There are still open nodes. -/
  | reading (s : Reading)
  /-- The last open node has closed. -/
  | closed (root : Node) (c : Cursor)
deriving DecidableEq, Repr

/-- Reads one token and what belongs to it. -/
def step (r : BlockReader) (s : Reading) : Outcome DecodeError Progress := do
  let (word, next) ← s.cursor.word
  match Token.ofWord? word with
  | none => .ofExcept (.error (s.cursor.error (.badToken word)))
  | some .finish => .ofExcept (.error (s.cursor.error .prematureEnd))
  | some .endNode =>
    match s.outer with
    | [] => return .closed s.inner next
    | parent :: outer => return .reading ⟨parent.pushChild s.inner, outer, next⟩
  | some .property =>
    let (p, next) ← r.readProperty next
    return .reading ⟨s.inner.addProperty p, s.outer, next⟩
  | some .beginNode =>
    if maxNesting ≤ s.outer.length + 1 then .ofExcept (.error (next.error .nestingTooDeep))
    else
      let (n, next) ← r.readOpening (some s.inner.path) next
      return .reading ⟨n, s.inner :: s.outer, next⟩

theorem step_shorter {r : BlockReader} {s s' : Reading} (h : (r.step s).result = .ok (.reading s')) :
    s'.cursor.rest.length < s.cursor.rest.length := by
  unfold step at h
  simp only [Outcome.result_bind] at h
  cases hw : s.cursor.word with
  | error e =>
    rw [hw] at h
    cases h
  | ok p =>
    obtain ⟨word, next⟩ := p
    have hnext := Cursor.word_shorter hw
    rw [hw] at h
    change Outcome.result _ = _ at h
    dsimp only at h
    split at h
    · cases h
    · cases h
    · split at h
      · cases h
      · cases h
        dsimp only
        omega
    · simp only [Outcome.result_bind] at h
      cases hp : r.readProperty next with
      | error e =>
        rw [hp] at h
        cases h
      | ok q =>
        rw [hp] at h
        cases h
        have := readProperty_shorter hp
        dsimp only
        omega
    · split at h
      · cases h
      · simp only [Outcome.result_bind] at h
        cases ho : (r.readOpening (some s.inner.path) next).result with
        | error e =>
          rw [ho] at h
          cases h
        | ok q =>
          rw [ho] at h
          cases h
          have := readOpening_shorter ho
          dsimp only
          omega

/-- Reads on until the last open node closes. Gives that node and the cursor after it. -/
def readOpen (r : BlockReader) (s : Reading) : Outcome DecodeError (Node × Cursor) :=
  let o := r.step s
  match _h : o.result with
  | .error e => ⟨o.notices, .error e⟩
  | .ok (.closed root c) => ⟨o.notices, .ok (root, c)⟩
  | .ok (.reading s') => (readOpen r s').after o.notices
termination_by s.cursor.rest.length
decreasing_by exact step_shorter _h

/-- The cursor after a token that has to stand here. -/
def expect (t : Token) (fault : UInt32 → Fault) (c : Cursor) : Except DecodeError Cursor := do
  let (word, next) ← c.word
  if word = t.word then return next else throw (c.error (fault word))

/-- Reads the root, whose opening token stands first in the block, and the token that ends the block. -/
def readTree (r : BlockReader) (c : Cursor) : Outcome DecodeError Node := do
  let c ← expect .beginNode .missingBeginNode c
  let (root, c) ← r.readOpening none c
  let (root, c) ← r.readOpen ⟨root, [], c⟩
  let _ ← expect .finish .missingEnd c
  return root

end BlockReader

end DeviceTree
