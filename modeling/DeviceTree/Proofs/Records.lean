import DeviceTree.Proofs.Faults
import DeviceTree.Proofs.NodeName

/-!
# Records, and the nodes that begin with them

A structure block is a list of records as far as it can be read, and each record leads from one place of the tree to
another (`Format.IsRecord`): an opening into a new node, a property nowhere, an end out of the innermost node. The
records at the front of a block (`Format.Records`) begin some nodes, each with the bytes that it is stored as. About each
of these there may be something to say (`Begun.warnings`).

* `exists_longest`: every block has a longest front of records.
-/

namespace DeviceTree

open BigEndian (word32)

/-! ## What is worth a notice -/

/-- The bytes are the UTF-8 form of a text. -/
def Utf8.IsForm (bs : Bytes) : Prop :=
  ∃ text, bs = Utf8.encode text

theorem Utf8.isForm_iff {bs : Bytes} : Utf8.IsForm bs ↔ Utf8.isValid bs = true := by
  refine ⟨fun ⟨text, h⟩ => h ▸ Utf8.isValid_encode text, fun h => ⟨Utf8.lossy bs, ?_⟩⟩
  exact Utf8.decode?_eq_some_iff.1 (if_pos h)

instance (bs : Bytes) : Decidable (Utf8.IsForm bs) :=
  decidable_of_iff _ Utf8.isForm_iff.symm

/-! ## The records of a structure block -/

namespace Format

/-- A node that has begun: the bytes it is stored as, and its name and path by them. -/
structure Begun where
  id : Bytes
  name : String
  path : String

namespace Begun

/-- The name and the path of the node. -/
def title (b : Begun) : String × String :=
  (b.name, b.path)

/-- The notice about bytes that are not UTF-8. -/
def replacement (id : Bytes) : List Notice :=
  if Utf8.IsForm id then [] else [.replacedName (Utf8.lossy id)]

/-- The notices about the node: first its bytes, if they are not UTF-8, then its name, if it is not regular. -/
def warnings (b : Begun) : List Notice :=
  replacement b.id ++ if NodeName.Regular b.name then [] else [.irregularName b.name]

end Begun

/-- The bytes behind the token at the front, up to the next NUL. -/
def storedText (bs : Bytes) : Bytes :=
  (bs.drop 4).takeWhile (· != 0)

/-- The notice about the node that does not begin, because the text at the front of these bytes is no path for it. -/
def rejection (bs : Bytes) : Fault → List Notice
  | .pathMismatch _ _ => Begun.replacement (storedText bs)
  | _ => []

/-- A place in a structure block between two records, by the paths of the nodes that are open there. -/
inductive Place where
  /-- Before the root. -/
  | start
  /-- In the node with this path, which is inside others with these paths, the innermost first. -/
  | inside (path : String) (around : List String)
  /-- Behind the root. -/
  | behind

/-- These bytes are a record `pos` bytes into the block. It leads from the one place to the other, and at most one node
begins with it. -/
inductive IsRecord (g : Context) (pos : Nat) : Place → Bytes → Place → List Begun → Prop where
  /-- The root opens. -/
  | root {record : Bytes} {name path : String} (hopening : IsOpening g none pos record name path) :
    IsRecord g pos .start record (.inside path []) [⟨storedText record, name, path⟩]
  /-- A property goes to the innermost node. -/
  | property {record : Bytes} {p : Property} {path : String} {around : List String}
    (hp : IsProperty g pos record p) : IsRecord g pos (.inside path around) record (.inside path around) []
  /-- A node opens inside the innermost one. No node may be inside more than 255. -/
  | child {record : Bytes} {name path inner : String} {around : List String} (hdepth : around.length + 1 < 256)
    (hopening : IsOpening g (some path) pos record name inner) :
    IsRecord g pos (.inside path around) record (.inside inner (path :: around)) [⟨storedText record, name, inner⟩]
  /-- The innermost node closes, and there is another one around it. -/
  | endNode {path parent : String} {around : List String} :
    IsRecord g pos (.inside path (parent :: around)) (word32 Token.endNode.word) (.inside parent around) []
  /-- The root closes. -/
  | endRoot {path : String} : IsRecord g pos (.inside path []) (word32 Token.endNode.word) .behind []

/-- Records one after the other, from `pos` bytes into the block, with the nodes that begin with them. -/
inductive Records (g : Context) : (pos : Nat) → Place → Bytes → Place → List Begun → Prop where
  | nil {pos : Nat} {place : Place} : Records g pos place [] place []
  | cons {pos : Nat} {place place' place'' : Place} {record more : Bytes} {begun begun' : List Begun}
    (hrecord : IsRecord g pos place record place' begun)
    (hmore : Records g (pos + record.length) place' more place'' begun') :
    Records g pos place (record ++ more) place'' (begun ++ begun')

/-- The bytes begin with no record for this place. -/
def NoRecord (g : Context) (pos : Nat) (place : Place) (bs : Bytes) : Prop :=
  ∀ record rest place' begun, bs = record ++ rest → ¬IsRecord g pos place record place' begun

/-- The records at the front of a block, as far as there are any. -/
structure Longest (g : Context) (block front rest : Bytes) (place : Place) (begun : List Begun) : Prop where
  block : block = front ++ rest
  records : Records g 0 .start front place begun
  last : NoRecord g front.length place rest

variable {g : Context} {pos : Nat} {place place' place'' : Place} {front more record : Bytes} {begun begun' : List Begun}

theorem storedText_word {id : Bytes} (h : 0 ∉ id) (w : UInt32) (rest : Bytes) :
    storedText (word32 w ++ (id ++ 0 :: rest)) = id := by
  rw [storedText, List.drop_left' (BigEndian.length_word32 w), List.takeWhile_append_of_pos]
  · simp
  · exact fun b hb => bne_iff_ne.2 fun hzero => h (hzero ▸ hb)

/-- What stands behind an opening does not matter to the text in it. -/
theorem IsOpening.storedText_append {parent : Option String} {name path : String}
    (h : IsOpening g parent pos record name path) (rest : Bytes) : storedText (record ++ rest) = storedText record := by
  obtain ⟨id, fill, _, _, hid⟩ := h
  rw [List.append_assoc, List.append_assoc, List.append_assoc, List.cons_append, storedText_word hid,
    storedText_word hid]

theorem IsRecord.length_pos (h : IsRecord g pos place record place' begun) : 0 < record.length := by
  have hword (w : UInt32) (tail : Bytes) : 0 < (word32 w ++ tail).length := by
    rw [List.length_append, BigEndian.length_word32]
    omega
  cases h with
  | root hopening =>
    obtain ⟨tail, rfl⟩ := hopening.exists_tail
    exact hword _ tail
  | property hp =>
    obtain ⟨tail, rfl⟩ := hp.exists_tail
    exact hword _ tail
  | child _ hopening =>
    obtain ⟨tail, rfl⟩ := hopening.exists_tail
    exact hword _ tail
  | endNode => decide
  | endRoot => decide

theorem IsRecord.records (h : IsRecord g pos place record place' begun) : Records g pos place record place' begun := by
  have hrecords := Records.cons h .nil
  rwa [List.append_nil, List.append_nil] at hrecords

theorem Records.append (h : Records g pos place front place' begun)
    (hmore : Records g (pos + front.length) place' more place'' begun') :
    Records g pos place (front ++ more) place'' (begun ++ begun') := by
  induction h with
  | nil => exact hmore
  | cons hrecord _ ih =>
    rw [List.append_assoc, List.append_assoc]
    refine .cons hrecord (ih ?_)
    rwa [List.length_append, ← Nat.add_assoc] at hmore

/-- From anywhere in a block the records go on up to a place where there is none any more. -/
theorem exists_records (g : Context) (pos : Nat) (place : Place) (bs : Bytes) :
    ∃ front rest place' begun, bs = front ++ rest ∧ Records g pos place front place' begun ∧
      NoRecord g (pos + front.length) place' rest := by
  induction h : bs.length using Nat.strongRecOn generalizing pos place bs with
  | ind n ih =>
    subst h
    by_cases hsome : ∃ record rest place' begun, bs = record ++ rest ∧ IsRecord g pos place record place' begun
    · obtain ⟨record, rest, place', begun, rfl, hrecord⟩ := hsome
      have hshort : rest.length < (record ++ rest).length := by
        rw [List.length_append]
        exact Nat.lt_add_of_pos_left hrecord.length_pos
      obtain ⟨front, rest', place'', begun', rfl, hmore, hlast⟩ := ih _ hshort (pos + record.length) place' rest rfl
      refine ⟨record ++ front, rest', place'', begun ++ begun', (List.append_assoc ..).symm, .cons hrecord hmore, ?_⟩
      rwa [List.length_append, ← Nat.add_assoc]
    · exact ⟨[], bs, place, [], rfl, .nil, fun record rest place' begun hbs hrecord =>
        hsome ⟨record, rest, place', begun, hbs, hrecord⟩⟩

theorem exists_longest (g : Context) (block : Bytes) :
    ∃ front rest place begun, Longest g block front rest place begun := by
  obtain ⟨front, rest, place, begun, hblock, hrecords, hlast⟩ := exists_records g 0 .start block
  rw [Nat.zero_add] at hlast
  exact ⟨front, rest, place, begun, hblock, hrecords, hlast⟩

end Format
end DeviceTree
