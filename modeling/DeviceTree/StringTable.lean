import DeviceTree.Text.Utf8

/-!
# The string table

The names of properties are stored once each, NUL-terminated, in the string block. A table holds them in the
order in which they first came in, so a name keeps its offset when others follow.

* `offset_insert_of_mem`: an offset does not change when another name comes in.
-/

namespace DeviceTree

/-- The distinct names of a string block, in the order in which they came in. -/
structure StringTable where
  names : List String := []
deriving DecidableEq, Repr

namespace StringTable

/-- How many bytes a name takes with its NUL. -/
def entrySize (name : String) : Nat :=
  name.utf8ByteSize + 1

/-- How many bytes names take one after the other. -/
def span (names : List String) : Nat :=
  names.foldr (fun name n => entrySize name + n) 0

/-- The table with the name in it. -/
def insert (t : StringTable) (name : String) : StringTable :=
  if name ∈ t.names then t else ⟨t.names ++ [name]⟩

/-- The table of all names in a list, which may repeat. -/
def ofList (names : List String) : StringTable :=
  names.foldl insert {}

/-- Where the name stands in the block, or where it would be put. -/
def offset (t : StringTable) (name : String) : Nat :=
  span (t.names.takeWhile (· != name))

/-- How many bytes the block takes. -/
def size (t : StringTable) : Nat :=
  span t.names

/-- The bytes of the block. -/
def toBytes (t : StringTable) : Bytes :=
  t.names.flatMap fun name => Utf8.encode name ++ [0]

@[simp] theorem span_nil : span [] = 0 := rfl

@[simp] theorem span_cons (name : String) (names : List String) :
    span (name :: names) = entrySize name + span names := rfl

theorem mem_insert {t : StringTable} {name other : String} :
    other ∈ (t.insert name).names ↔ other ∈ t.names ∨ other = name := by
  unfold insert
  split
  · rename_i h
    exact ⟨.inl, fun h' => h'.elim id (· ▸ h)⟩
  · simp

theorem offset_insert_of_mem {t : StringTable} {name : String} (h : name ∈ t.names) (other : String) :
    (t.insert other).offset name = t.offset name := by
  unfold insert
  split
  · rfl
  · have hw : ∀ l : List String, name ∈ l →
        (l ++ [other]).takeWhile (· != name) = l.takeWhile (· != name) := fun l => by
      induction l with
      | nil => nofun
      | cons x l ih =>
        intro hx
        by_cases hxn : x = name
        · simp [hxn]
        · have hl := (List.mem_cons.1 hx).resolve_left (Ne.symm hxn)
          simp [hxn, ih hl]
    simp only [offset, hw _ h]

end StringTable

end DeviceTree
