import DeviceTree.Proofs.Window
import DeviceTree.Proofs.Writing
import Mathlib.Data.List.Infix

/-!
# The string table as it grows

A table that grows while names come in keeps three things in step: the bytes of the block, the names in their order,
and the offset that each name was given (`StringPool`). What one name does to it is said once (`insert_cases`): a name
that is there changes nothing, and any other goes to the end. So the pool goes along with the table that has the names
only, from which the bytes and the offsets follow (`Keeps`): for one name (`Keeps.insert`), and by induction for all
names of a run (`Keeps.insertAll`).

* `insertAll_interns`: a run does not fail if the bytes of its names fit, and what it then leaves behind (`Interns`).
-/

namespace DeviceTree

/-! ## The table that has only the names -/

namespace StringTable

variable {t : StringTable} {name : String}

theorem names_ofList (names : List String) : (ofList names).names = names.eraseDups := by
  induction names using List.reverseRecOn with
  | nil => rfl
  | append_singleton names name ih =>
    have hlast : (ofList (names ++ [name])).names = ((ofList names).insert name).names := by
      rw [ofList, List.foldl_append]
      rfl
    rw [hlast, insert, ih, List.eraseDups_append, List.cons_removeAll, List.nil_removeAll]
    by_cases h : name ∈ names
    · simp [h, ih]
    · simp [h, List.eraseDups_cons]

theorem offset_foldl_insert (h : name ∈ t.names) (names : List String) :
    (names.foldl insert t).offset name = t.offset name := by
  induction names generalizing t with
  | nil => rfl
  | cons other names ih => rw [List.foldl_cons, ih (mem_insert.2 (.inl h)), offset_insert_of_mem h]

/-- A name that is not there yet goes to the end. -/
theorem offset_insert_of_notMem (h : name ∉ t.names) : (t.insert name).offset name = t.size := by
  rw [insert, if_neg h, offset_last h, length_toBytes]

theorem span_append (xs ys : List String) : span (xs ++ ys) = span xs + span ys := by
  induction xs with
  | nil => rw [List.nil_append, span_nil, Nat.zero_add]
  | cons x xs ih => rw [List.cons_append, span_cons, span_cons, ih, Nat.add_assoc]

theorem size_insert_of_notMem (h : name ∉ t.names) : (t.insert name).size = t.size + entrySize name := by
  rw [insert, if_neg h, size, span_append, span_cons, span_nil, Nat.add_zero]
  rfl

theorem size_le_insert (t : StringTable) (name : String) : t.size ≤ (t.insert name).size := by
  by_cases h : name ∈ t.names
  · rw [insert, if_pos h]
  · rw [size_insert_of_notMem h]
    exact Nat.le_add_right ..

theorem size_le_foldl_insert (t : StringTable) (names : List String) : t.size ≤ (names.foldl insert t).size := by
  induction names generalizing t with
  | nil => exact Nat.le_refl _
  | cons name names ih => exact Nat.le_trans (size_le_insert t name) (ih _)

/-- The offset of a name is the size of the table when it first came in. -/
theorem offset_ofList (front : List String) (h : name ∉ front) (back : List String) :
    (ofList (front ++ name :: back)).offset name = span front.eraseDups := by
  have hfirst : name ∉ (ofList front).names := fun hn => h (mem_ofList.1 hn)
  rw [ofList, List.foldl_append, List.foldl_cons, ← ofList, offset_foldl_insert (mem_insert.2 (.inr rfl)),
    offset_insert_of_notMem hfirst, size, names_ofList]

/-- No two names begin at the same place. -/
theorem offset_inj {other : String} (h : name ∈ t.names) (h' : other ∈ t.names)
    (heq : t.offset name = t.offset other) : name = other := by
  obtain ⟨names⟩ := t
  unfold offset at heq
  induction names with
  | nil => exact absurd h List.not_mem_nil
  | cons x names ih =>
    have hpos : 0 < entrySize x := Nat.succ_pos _
    simp only [List.takeWhile_cons, bne_iff_ne, ne_eq, ite_not] at heq
    split at heq <;> split at heq
    · rename_i hx hx'
      exact hx.symm.trans hx'
    · rw [span_cons, span_nil] at heq
      omega
    · rw [span_cons, span_nil] at heq
      omega
    · rename_i hx hx'
      rw [span_cons, span_cons, Nat.add_left_cancel_iff] at heq
      exact ih ((List.mem_cons.1 h).resolve_left (Ne.symm hx)) ((List.mem_cons.1 h').resolve_left (Ne.symm hx')) heq

end StringTable

/-! ## Names in a block that lies in a blob -/

theorem Format.NameAt.append {strings : Bytes} {offset : Nat} {name : String} (h : NameAt strings offset name)
    (rest : Bytes) : NameAt (strings ++ rest) offset name := by
  obtain ⟨tail, htail, hnul⟩ := h
  have hle : offset ≤ strings.length := by
    by_contra hlt
    rw [List.drop_of_length_le (by omega)] at htail
    exact List.cons_ne_nil _ _ (List.append_eq_nil_iff.1 htail.symm).2
  refine ⟨tail ++ rest, ?_, hnul⟩
  rw [List.drop_append_of_le_length hle, htail, List.append_assoc, List.cons_append]

/-- A name that stands in the string block is read by its position in the blob. -/
theorem Window.name_eq_ok {w : Window} {offset : UInt32} {name : String} (hlimit : w.limit ≤ w.blob.length)
    (hsize : w.blob.length < 0x10000000000000000) (h : Format.NameAt w.stringBlock.bytes offset.toNat name) :
    w.name offset = .ok name := by
  obtain ⟨rest, hrest, hnul⟩ := h
  rw [stringBlock, List.drop_drop] at hrest
  have hplace : w.base + offset.toNat < w.limit := by
    have hlength := congrArg List.length hrest
    simp only [List.length_drop, List.length_take, List.length_append, List.length_cons] at hlength
    omega
  unfold Window.name
  dsimp only
  rw [if_pos ⟨by omega, hplace⟩, Run.slice_eq_ok (by omega) hlimit, ok_bind, hrest, Bytes.untilNul?_append hnul]
  simp only [Utf8.decode?_eq_some_iff.2 rfl]
  rfl

/-! ## The table as it is kept -/

/-- A string table while names come in. -/
structure StringPool where
  /-- The bytes of the block so far. -/
  bytes : Bytes := []
  /-- The names in the order in which they came in, with the offsets that they were given. -/
  offsets : List (String × UInt32) := []
deriving DecidableEq, Repr

namespace StringPool

/-- The names in the order in which they came in. -/
def names (p : StringPool) : List String :=
  p.offsets.map (·.1)

/-- The offset of a name, and the table with the name in it. A name that is not there yet goes to the end. -/
def insert (p : StringPool) (name : String) : Except EncodeError (UInt32 × StringPool) :=
  match p.offsets.lookup name with
  | some offset => .ok (offset, p)
  | none => do
    Quantity.stringTableLength.check p.bytes.length
    let offset := UInt32.ofNat p.bytes.length
    return (offset, ⟨p.bytes ++ (Utf8.encode name ++ [0]), p.offsets ++ [(name, offset)]⟩)

/-- The offsets of names that come in one after the other, and the table with all of them in it. -/
def insertAll (p : StringPool) : List String → Except EncodeError (List UInt32 × StringPool)
  | [] => .ok ([], p)
  | name :: names => do
    let (offset, p) ← p.insert name
    let (offsets, p) ← p.insertAll names
    return (offset :: offsets, p)

variable {p q : StringPool} {t : StringTable} {name : String} {offset : UInt32} {names : List String}
  {offsets : List UInt32}

/-- All that one name can do. -/
theorem insert_cases (h : p.insert name = .ok (offset, q)) :
    ((name, offset) ∈ p.offsets ∧ q = p) ∨
      (name ∉ p.names ∧ offset.toNat = p.bytes.length ∧
        q = ⟨p.bytes ++ (Utf8.encode name ++ [0]), p.offsets ++ [(name, offset)]⟩) := by
  unfold insert at h
  split at h
  · rename_i found hfound
    obtain ⟨rfl, rfl⟩ := Prod.mk.inj (Except.ok.inj h)
    obtain ⟨front, back, hoffsets, -⟩ := List.lookup_eq_some_iff.1 hfound
    exact .inl ⟨hoffsets ▸ List.mem_append_right _ (.head _), rfl⟩
  · rename_i hnone
    obtain ⟨_, hcheck, h⟩ := bind_eq_ok_iff.1 h
    obtain ⟨rfl, rfl⟩ := Prod.mk.inj (Except.ok.inj h)
    refine .inr ⟨fun hname => ?_, BigEndian.toNat_word (Quantity.check_eq_ok_iff.1 hcheck), rfl⟩
    obtain ⟨entry, hentry, rfl⟩ := List.mem_map.1 hname
    simpa using List.lookup_eq_none_iff.1 hnone entry hentry

/-- A name comes in if it is there already or the bytes so far have an end that fits in 32 bits. -/
theorem exists_insert (h : name ∈ p.names ∨ p.bytes.length < 0x100000000) : ∃ r, p.insert name = .ok r := by
  unfold insert
  split
  · exact ⟨_, rfl⟩
  · rename_i hnone
    refine ⟨_, bind_eq_ok_iff.2 ⟨(), Quantity.check_eq_ok_iff.2 (h.resolve_left fun hname => ?_), rfl⟩⟩
    obtain ⟨entry, hentry, rfl⟩ := List.mem_map.1 hname
    simpa using List.lookup_eq_none_iff.1 hnone entry hentry

theorem insertAll_cons_eq_ok_iff :
    p.insertAll (name :: names) = .ok (offsets, q) ↔
      ∃ offset p' rest, p.insert name = .ok (offset, p') ∧ p'.insertAll names = .ok (rest, q) ∧
        offsets = offset :: rest := by
  rw [insertAll]
  refine ⟨fun h => ?_, fun h => ?_⟩
  · obtain ⟨⟨offset, p'⟩, hinsert, h⟩ := bind_eq_ok_iff.1 h
    obtain ⟨⟨rest, q'⟩, hrest, h⟩ := bind_eq_ok_iff.1 h
    obtain ⟨rfl, rfl⟩ := Prod.mk.inj (Except.ok.inj h)
    exact ⟨offset, p', rest, hinsert, hrest, rfl⟩
  · obtain ⟨offset, p', rest, hinsert, hrest, rfl⟩ := h
    exact bind_eq_ok_iff.2 ⟨_, hinsert, bind_eq_ok_iff.2 ⟨_, hrest, rfl⟩⟩

/-- A run is one of its front and then one of its back. -/
theorem insertAll_append {back : List String} (h : p.insertAll (names ++ back) = .ok (offsets, q)) :
    ∃ p' rest rest', p.insertAll names = .ok (rest, p') ∧ p'.insertAll back = .ok (rest', q) ∧
      offsets = rest ++ rest' := by
  induction names generalizing p offsets with
  | nil => exact ⟨p, [], offsets, rfl, h, rfl⟩
  | cons name names ih =>
    obtain ⟨offset, p₁, tail, hinsert, htail, rfl⟩ := insertAll_cons_eq_ok_iff.1 h
    obtain ⟨p', rest, rest', hfront, hback, rfl⟩ := ih htail
    exact ⟨p', offset :: rest, rest', insertAll_cons_eq_ok_iff.2 ⟨offset, p₁, rest, hinsert, hfront, rfl⟩, hback, rfl⟩

theorem length_insertAll (h : p.insertAll names = .ok (offsets, q)) : offsets.length = names.length := by
  induction names generalizing p offsets with
  | nil =>
    obtain ⟨rfl, -⟩ := Prod.mk.inj (Except.ok.inj h)
    rfl
  | cons name names ih =>
    obtain ⟨offset, p', rest, -, hrest, rfl⟩ := insertAll_cons_eq_ok_iff.1 h
    rw [List.length_cons, List.length_cons, ih hrest]

/-! ## Nothing is disturbed -/

/-- The table `q` has all that `p` has, where it was. -/
structure Extends (q p : StringPool) : Prop where
  bytes : p.bytes <+: q.bytes
  offsets : p.offsets <+: q.offsets

theorem insert_extends (h : p.insert name = .ok (offset, q)) : q.Extends p := by
  obtain ⟨-, rfl⟩ | ⟨-, -, rfl⟩ := insert_cases h
  · exact ⟨List.prefix_rfl, List.prefix_rfl⟩
  · exact ⟨List.prefix_append .., List.prefix_append ..⟩

theorem insertAll_extends (h : p.insertAll names = .ok (offsets, q)) : q.Extends p := by
  induction names generalizing p offsets with
  | nil =>
    obtain ⟨-, rfl⟩ := Prod.mk.inj (Except.ok.inj h)
    exact ⟨List.prefix_rfl, List.prefix_rfl⟩
  | cons name names ih =>
    obtain ⟨offset, p', rest, hinsert, hrest, rfl⟩ := insertAll_cons_eq_ok_iff.1 h
    have hfirst := insert_extends hinsert
    have hmore := ih hrest
    exact ⟨hfirst.bytes.trans hmore.bytes, hfirst.offsets.trans hmore.offsets⟩

/-! ## It keeps the table of the names -/

/-- The pool has the names of the table, with its bytes and its offsets. -/
structure Keeps (p : StringPool) (t : StringTable) : Prop where
  names : p.names = t.names
  bytes : p.bytes = t.toBytes
  offset : ∀ name offset, (name, offset) ∈ p.offsets → offset.toNat = t.offset name

theorem keeps_empty : Keeps {} {} := ⟨rfl, rfl, nofun⟩

theorem Keeps.insert (h : p.Keeps t) (hinsert : p.insert name = .ok (offset, q)) :
    q.Keeps (t.insert name) ∧ offset.toNat = (t.insert name).offset name := by
  obtain ⟨hmem, rfl⟩ | ⟨hnotMem, hoffset, rfl⟩ := insert_cases hinsert
  · have hname : name ∈ t.names := h.names ▸ List.mem_map_of_mem hmem
    rw [StringTable.insert, if_pos hname]
    exact ⟨h, h.offset name offset hmem⟩
  · rw [h.names] at hnotMem
    have hplace : offset.toNat = (t.insert name).offset name := by
      rw [hoffset, h.bytes, StringTable.length_toBytes, StringTable.offset_insert_of_notMem hnotMem]
    have hnames : (t.insert name).names = t.names ++ [name] := by rw [StringTable.insert, if_neg hnotMem]
    refine ⟨⟨?_, ?_, fun other o hentry => ?_⟩, hplace⟩
    · rw [hnames, ← h.names]
      exact List.map_append
    · rw [StringTable.toBytes, hnames, List.flatMap_append, List.flatMap_singleton, h.bytes]
      rfl
    · rcases List.mem_append.1 hentry with hentry | hentry
      · have hother : other ∈ t.names := h.names ▸ List.mem_map_of_mem hentry
        rw [StringTable.offset_insert_of_mem hother, h.offset other o hentry]
      · obtain ⟨rfl, rfl⟩ := Prod.mk.inj (List.mem_singleton.1 hentry)
        exact hplace

/-- A run goes along with the table, and gives the offsets that the names have in the end. -/
theorem Keeps.insertAll (h : p.Keeps t) (hrun : p.insertAll names = .ok (offsets, q)) :
    q.Keeps (names.foldl .insert t) ∧ offsets.map (·.toNat) = names.map (names.foldl .insert t).offset := by
  induction names generalizing p t offsets with
  | nil =>
    obtain ⟨rfl, rfl⟩ := Prod.mk.inj (Except.ok.inj hrun)
    exact ⟨h, rfl⟩
  | cons name names ih =>
    obtain ⟨offset, p', rest, hinsert, hrest, rfl⟩ := insertAll_cons_eq_ok_iff.1 hrun
    obtain ⟨hkeeps, hoffset⟩ := h.insert hinsert
    obtain ⟨hkeeps', hoffsets⟩ := ih hkeeps hrest
    refine ⟨hkeeps', ?_⟩
    rw [List.map_cons, List.map_cons, List.foldl_cons, hoffsets, hoffset,
      StringTable.offset_foldl_insert (StringTable.mem_insert.2 (.inr rfl))]

/-- A run does not fail if the bytes of the table fit. -/
theorem Keeps.exists_insertAll (h : p.Keeps t) (hsize : (names.foldl .insert t).size ≤ 0x100000000) :
    ∃ r, p.insertAll names = .ok r := by
  induction names generalizing p t with
  | nil => exact ⟨_, rfl⟩
  | cons name names ih =>
    have hroom : name ∈ p.names ∨ p.bytes.length < 0x100000000 := by
      rw [h.names, h.bytes, StringTable.length_toBytes]
      refine Decidable.or_iff_not_imp_left.2 fun hname => ?_
      have hgrown := StringTable.size_insert_of_notMem hname
      have hle := StringTable.size_le_foldl_insert (t.insert name) names
      rw [List.foldl_cons] at hsize
      rw [StringTable.entrySize] at hgrown
      omega
    obtain ⟨⟨offset, p'⟩, hinsert⟩ := exists_insert hroom
    obtain ⟨⟨rest, q⟩, hrest⟩ := ih (h.insert hinsert).1 hsize
    exact ⟨_, insertAll_cons_eq_ok_iff.2 ⟨offset, p', rest, hinsert, hrest, rfl⟩⟩

/-! ## What a run leaves behind -/

/-- What is left of a run: the offsets that it gave for the names, and the table. -/
structure Interns (names : List String) (offsets : List UInt32) (p : StringPool) : Prop where
  /-- Each name is there once, in the order in which they first came in. -/
  order : p.names = names.eraseDups
  /-- The bytes are those names, each with a NUL behind it. -/
  bytes : p.bytes = p.names.flatMap fun name => Utf8.encode name ++ [0]
  /-- Names, bytes and offsets are those of the table that has only the names. -/
  table : p.names = (StringTable.ofList names).names ∧ p.bytes = (StringTable.ofList names).toBytes ∧
    offsets.map (·.toNat) = names.map (StringTable.ofList names).offset
  /-- When a name first came in, it was put behind the names that were there. -/
  first : ∀ front name back, names = front ++ name :: back → name ∉ front →
    ∃ offset, offsets[front.length]? = some offset ∧ offset.toNat = StringTable.span front.eraseDups
  /-- Equal names were given the same offset, and others were not. -/
  same : ∀ i j, i < names.length → j < names.length → (offsets[i]? = offsets[j]? ↔ names[i]? = names[j]?)
  /-- Up to any point, the run was the same without what came in later, and what there was then has not changed. -/
  undisturbed : ∀ front back, names = front ++ back →
    ∃ q, insertAll {} front = .ok (offsets.take front.length, q) ∧ p.Extends q
  /-- Wherever in a blob the table is put, the offset of a name leads to it. -/
  read : ∀ w : Window, w.limit ≤ w.blob.length → w.blob.length < 0x10000000000000000 →
    p.bytes <+: (w.blob.take w.limit).drop w.base →
    ∀ entry ∈ names.zip offsets, w.name entry.2 = .ok entry.1 ∧ w.stringBlock.name entry.2 = .ok entry.1

section Run

variable (hrun : insertAll {} names = .ok (offsets, p))

include hrun

theorem keeps_ofList :
    p.Keeps (.ofList names) ∧ offsets.map (·.toNat) = names.map (StringTable.ofList names).offset :=
  keeps_empty.insertAll hrun

/-- The offset that is given for a name is the one that the name has in the end. -/
theorem exists_offset {i : Nat} (hname : names[i]? = some name) :
    ∃ offset, offsets[i]? = some offset ∧ offset.toNat = (StringTable.ofList names).offset name := by
  have hget := congrArg (·[i]?) (keeps_ofList hrun).2
  simp only [List.getElem?_map, hname, Option.map_some, Option.map_eq_some_iff] at hget
  exact hget

theorem same_offset_iff {i j : Nat} (hi : i < names.length) (hj : j < names.length) :
    offsets[i]? = offsets[j]? ↔ names[i]? = names[j]? := by
  have hni := List.getElem?_eq_getElem hi
  have hnj := List.getElem?_eq_getElem hj
  obtain ⟨oi, hoi, hplace⟩ := exists_offset hrun hni
  obtain ⟨oj, hoj, hplace'⟩ := exists_offset hrun hnj
  rw [hoi, hoj, hni, hnj, Option.some_inj, Option.some_inj]
  refine ⟨fun h => ?_, fun h => ?_⟩
  · refine StringTable.offset_inj (StringTable.mem_ofList.2 (List.getElem_mem hi))
      (StringTable.mem_ofList.2 (List.getElem_mem hj)) ?_
    rw [← hplace, ← hplace', h]
  · rw [← UInt32.toNat_inj, hplace, hplace', h]

theorem undisturbed {front back : List String} (hnames : names = front ++ back) :
    ∃ q, insertAll {} front = .ok (offsets.take front.length, q) ∧ p.Extends q := by
  rw [hnames] at hrun
  obtain ⟨q, rest, rest', hfront, hback, rfl⟩ := insertAll_append hrun
  rw [List.take_left' (length_insertAll hfront)]
  exact ⟨q, hfront, insertAll_extends hback⟩

theorem nameAt_of_mem_zip (hnul : ∀ name ∈ names, '\x00' ∉ name.toList) {entry : String × UInt32}
    (hentry : entry ∈ names.zip offsets) : Format.NameAt p.bytes entry.2.toNat entry.1 := by
  obtain ⟨i, hi⟩ := List.getElem?_of_mem hentry
  obtain ⟨hname, hoffset⟩ := List.getElem?_zip_eq_some.1 hi
  obtain ⟨offset, hget, hplace⟩ := exists_offset hrun hname
  obtain rfl : offset = entry.2 := Option.some.inj (hget.symm.trans hoffset)
  have hmem := List.mem_of_getElem? hname
  rw [(keeps_ofList hrun).1.bytes, hplace]
  exact StringTable.nameAt_offset (StringTable.mem_ofList.2 hmem) (hnul _ hmem)

end Run

/-- A run of names without a NUL does not fail if their bytes fit, and every run that does not fail gives each name the
place where it first came in, from where it is read. -/
theorem insertAll_interns (names : List String) (hnul : ∀ name ∈ names, '\x00' ∉ name.toList) :
    (StringTable.span names.eraseDups ≤ 0x100000000 → ∃ offsets p, insertAll {} names = .ok (offsets, p)) ∧
      ∀ offsets p, insertAll {} names = .ok (offsets, p) → Interns names offsets p := by
  refine ⟨fun hsize => ?_, fun offsets p hrun => ?_⟩
  · have hfits : (StringTable.ofList names).size ≤ 0x100000000 := by
      rwa [StringTable.size, StringTable.names_ofList]
    obtain ⟨⟨offsets, p⟩, hrun⟩ := keeps_empty.exists_insertAll hfits
    exact ⟨offsets, p, hrun⟩
  · obtain ⟨hkeeps, hoffsets⟩ := keeps_ofList hrun
    refine
      { order := hkeeps.names.trans (StringTable.names_ofList names)
        bytes := by rw [hkeeps.bytes, hkeeps.names]; rfl
        table := ⟨hkeeps.names, hkeeps.bytes, hoffsets⟩
        first := fun front name back hnames hfront => ?_
        same := fun i j hi hj => same_offset_iff hrun hi hj
        undisturbed := fun front back hnames => undisturbed hrun hnames
        read := fun w hlimit hblob hplaced entry hentry => ?_ }
    · have hname : names[front.length]? = some name := by simp [hnames]
      obtain ⟨offset, hget, hplace⟩ := exists_offset hrun hname
      rw [hnames, StringTable.offset_ofList front hfront back] at hplace
      exact ⟨offset, hget, hplace⟩
    · obtain ⟨rest, hrest⟩ := hplaced
      have hstands : Format.NameAt w.stringBlock.bytes entry.2.toNat entry.1 := by
        rw [Window.stringBlock, ← hrest]
        exact (nameAt_of_mem_zip hrun hnul hentry).append rest
      exact ⟨Window.name_eq_ok hlimit hblob hstands, StringBlock.name_eq_ok_iff.2 hstands⟩

/-- A name that ends another one, an empty one, and one that comes again. -/
theorem insertAll_interns_suffix :
    ∃ offsets p, insertAll {} ["#size-cells", "size-cells", "", "#size-cells"] = .ok (offsets, p) ∧
      Interns ["#size-cells", "size-cells", "", "#size-cells"] offsets p ∧
      offsets.map (·.toNat) = [0, 12, 23, 0] := by
  obtain ⟨hexists, hinterns⟩ :=
    insertAll_interns ["#size-cells", "size-cells", "", "#size-cells"] (by decide)
  obtain ⟨offsets, p, hrun⟩ := hexists (by decide)
  refine ⟨offsets, p, hrun, hinterns offsets p hrun, ?_⟩
  rw [(hinterns offsets p hrun).table.2.2]
  decide

end StringPool

end DeviceTree
