import DeviceTree.Proofs.Reader
import DeviceTree.Proofs.Window

/-!
# Cutting texts by bytes

A text is kept as its UTF-8 form, so it is cut at a number of bytes, which must not be inside a character. Names and
paths are cut around their last separator (`Run.cutLast`), which takes one byte: so both cuts are beside it, and what
they give are the parts of the name or the path (`cutLast_eq`, `nameWithin_eq`, `isRegular_eq`).

Texts that are read are not longer than four bytes for each byte that they are read from (`size_lossy_le`).
-/

namespace DeviceTree

namespace Utf8

/-- How many bytes the form of a text takes. -/
def size (s : String) : Nat :=
  (encode s).length

/-- Whether a text with this form can be cut here: at its end or before a byte that begins a character. -/
def isBoundary (bs : Bytes) (place : Nat) : Bool :=
  (bs.drop place).head?.all fun b => b < 0x80 || 0xC0 ≤ b

theorem encode_append (s t : String) : encode (s ++ t) = encode s ++ encode t := by
  simp [encode]

theorem encode_ofList_cons (c : Char) (cs : List Char) :
    encode (.ofList (c :: cs)) = String.utf8EncodeChar c ++ encode (.ofList cs) := by
  simp [encode]

theorem size_append (s t : String) : size (s ++ t) = size s + size t := by
  rw [size, encode_append, List.length_append]
  rfl

/-- The first byte of a character is not one that goes on with a character. -/
theorem head_encodeChar (c : Char) :
    ∃ b rest, String.utf8EncodeChar c = b :: rest ∧ (b < 0x80 || 0xC0 ≤ b) = true := by
  have hfirst {b : UInt8} (h : b.toNat < 0x80 ∨ 0xC0 ≤ b.toNat) : (b < 0x80 || 0xC0 ≤ b) = true := by
    simp only [Bool.or_eq_true, decide_eq_true_eq, UInt8.lt_iff_toNat_lt, UInt8.le_iff_toNat_le]
    exact h
  have hv : c.toNat < 0xD800 ∨ (0xDFFF < c.toNat ∧ c.toNat < 0x110000) := c.valid
  simp only [String.utf8EncodeChar, show c.val.toNat = c.toNat from rfl]
  split
  · exact ⟨_, _, rfl, hfirst (by rw [toNat_byteOfNat]; omega)⟩
  split
  · exact ⟨_, _, rfl, hfirst (by rw [toNat_byteOfNat]; omega)⟩
  split
  · exact ⟨_, _, rfl, hfirst (by rw [toNat_byteOfNat]; omega)⟩
  · exact ⟨_, _, rfl, hfirst (by rw [toNat_byteOfNat]; omega)⟩

theorem isBoundary_append (bs : Bytes) (s : String) : isBoundary (bs ++ encode s) bs.length = true := by
  unfold isBoundary
  rw [List.drop_left]
  cases h : s.toList with
  | nil =>
    rw [encode, h]
    rfl
  | cons c cs =>
    obtain ⟨b, rest, hc, hb⟩ := head_encodeChar c
    rw [encode, h, List.flatMap_cons, hc]
    exact hb

/-- How many characters or gaps the bytes before a state can still become. -/
def State.pending : State → Nat
  | .start => 0
  | .inside .. => 1

theorem State.pending_start : State.start.pending = 0 := rfl

theorem State.pending_inside (bits least greatest more : Nat) :
    (State.inside bits least greatest more).pending = 1 := rfl

theorem length_lead (b : UInt8) : (lead b).1.length + (lead b).2.pending = 1 := by
  unfold lead
  dsimp only
  repeat' split
  all_goals rfl

theorem length_scanFrom_le (state : State) (bs : Bytes) : (scanFrom state bs).length ≤ bs.length + state.pending := by
  fun_induction scanFrom state bs with
  | case1 => exact Nat.zero_le _
  | case2 => exact Nat.le_refl _
  | case3 b bs ih =>
    have := length_lead b
    rw [List.length_append, List.length_cons, State.pending_start]
    omega
  | case4 bits least greatest b bs _ _ ih =>
    rw [State.pending_start] at ih
    rw [List.length_cons, List.length_cons, State.pending_inside]
    omega
  | case5 bits least greatest b bs _ _ more ih =>
    rw [State.pending_inside] at ih
    rw [List.length_cons, State.pending_inside]
    omega
  | case6 bits least greatest more b bs _ ih =>
    have := length_lead b
    rw [List.length_cons, List.length_append, List.length_cons, State.pending_inside]
    omega

theorem size_ofList_le (cs : List Char) : size (.ofList cs) ≤ 4 * cs.length := by
  induction cs with
  | nil => exact Nat.zero_le _
  | cons c cs ih =>
    have hchar : (String.utf8EncodeChar c).length ≤ 4 := by
      rw [String.length_utf8EncodeChar]
      exact c.utf8Size_le_four
    unfold size at ih ⊢
    rw [encode_ofList_cons, List.length_append, List.length_cons]
    omega

theorem size_lossy_le (bs : Bytes) : size (lossy bs) ≤ 4 * bs.length := by
  have hscan := length_scanFrom_le .start bs
  have hsize := size_ofList_le ((scan bs).map (·.getD '\uFFFD'))
  rw [List.length_map] at hsize
  exact Nat.le_trans hsize (Nat.mul_le_mul_left 4 hscan)

end Utf8

namespace Run

open Utf8 (size)

/-- The text from one byte of a text up to another. -/
def sliceText (s : String) (start stop : Nat) : Run String := do
  let bs ← slice (Utf8.encode s) start stop
  if Utf8.isBoundary (Utf8.encode s) start && Utf8.isBoundary (Utf8.encode s) stop then return Utf8.lossy bs
  else throw (.trap .insideCharacter)

/-- The texts before and after the last separator, if there is one. -/
def cutLast (sep : Char) (s : String) : Run (Option (String × String)) := do
  match Split.splitLast? sep s.toList with
  | none => return none
  | some (before, _) =>
    let place := size (.ofList before)
    return some (← sliceText s 0 place, ← sliceText s (← add place 1) (size s))

/-- The name of the node stored with the path `path` inside the node with the path `parent`. -/
def nameWithin (parent : Option String) (path : String) : Run (Option String) := do
  match parent with
  | none => return if path = "/" then some "" else none
  | some parent =>
    match ← cutLast '/' path with
    | none => return none
    | some (dir, name) => return if (if dir = "" then "/" else dir) = parent then some name else none

/-- Whether both parts of the name keep to their characters. -/
def isRegular (name : String) : Run Bool := do
  match ← cutLast '@' name with
  | none => return name.toList.all NodeName.isBaseChar
  | some (base, address) =>
    return base.toList.all NodeName.isBaseChar && address.toList.all NodeName.isAddressChar

/-- The path of the node called `name` under `parent`, in as many bytes as are set aside for it. -/
def join (parent name : String) : Run String := do
  let _ ← add (← add (size parent) (size name)) 1
  return Path.join parent name

/-- A text is cut out of what stands around it. -/
theorem sliceText_append (s t u : String) : sliceText (s ++ t ++ u) (size s) (size s + size t) = .ok t := by
  have hencode : Utf8.encode (s ++ t ++ u) = Utf8.encode s ++ Utf8.encode t ++ Utf8.encode u := by
    rw [Utf8.encode_append, Utf8.encode_append]
  have hlength : size s + size t = (Utf8.encode s ++ Utf8.encode t).length := List.length_append.symm
  have hstart : Utf8.isBoundary (Utf8.encode (s ++ t ++ u)) (size s) = true := by
    rw [hencode, List.append_assoc, ← Utf8.encode_append]
    exact Utf8.isBoundary_append (Utf8.encode s) (t ++ u)
  have hstop : Utf8.isBoundary (Utf8.encode (s ++ t ++ u)) (size s + size t) = true := by
    rw [hencode, hlength]
    exact Utf8.isBoundary_append _ u
  have hslice : slice (Utf8.encode (s ++ t ++ u)) (size s) (size s + size t) = .ok (Utf8.encode t) := by
    have hle : size s + size t ≤ (Utf8.encode (s ++ t ++ u)).length := by
      simp only [hencode, hlength, List.length_append]
      omega
    rw [slice_eq_ok (Nat.le_add_right ..) hle, hencode, hlength, List.take_left]
    exact congrArg Except.ok List.drop_left
  unfold sliceText
  rw [hslice, ok_bind, hstart, hstop]
  show Except.ok (Utf8.lossy (Utf8.encode t)) = _
  rw [Utf8.lossy_encode]

theorem sliceText_front (t u : String) : sliceText (t ++ u) 0 (size t) = .ok t := by
  have := sliceText_append "" t u
  rwa [String.empty_append, show size "" = 0 from rfl, Nat.zero_add] at this

theorem sliceText_back (s t : String) : sliceText (s ++ t) (size s) (size (s ++ t)) = .ok t := by
  have := sliceText_append s t ""
  rwa [String.append_empty, ← Utf8.size_append] at this

/-- A cut inside a character is a trap. -/
example : sliceText "é" 0 1 = .error (.trap .insideCharacter) := by decide +kernel

variable {sep : Char} {byte : UInt8}

/-- Both cuts beside a separator of one byte are between characters. -/
theorem cutLast_eq (hsep : String.utf8EncodeChar sep = [byte]) {s : String} (hsize : size s < 0x10000000000000000) :
    cutLast sep s =
      .ok ((Split.splitLast? sep s.toList).map fun (before, after) => (.ofList before, .ofList after)) := by
  unfold cutLast
  cases h : Split.splitLast? sep s.toList with
  | none => rfl
  | some p =>
    obtain ⟨before, after⟩ := p
    obtain ⟨hs, -⟩ := Split.splitLast?_eq_some_iff.1 h
    have hparts : s = .ofList before ++ .ofList [sep] ++ .ofList after := by
      rw [← String.toList_inj, hs]
      simp
    have hone : size (.ofList [sep]) = 1 := by
      rw [size, Utf8.encode_ofList_cons, hsep]
      rfl
    have hsum : size s = size (.ofList before) + 1 + size (.ofList after) := by
      rw [hparts, Utf8.size_append, Utf8.size_append, hone]
    have hfront : sliceText s 0 (size (.ofList before)) = .ok (.ofList before) := by
      rw [hparts, String.append_assoc]
      exact sliceText_front _ _
    have hback : sliceText s (size (.ofList before) + 1) (size s) = .ok (.ofList after) := by
      rw [← hone, ← Utf8.size_append, hparts]
      exact sliceText_back _ _
    dsimp only
    rw [hfront, ok_bind, add_eq_ok (by omega), ok_bind, hback]
    rfl

theorem nameWithin_eq (parent : Option String) {path : String} (hsize : size path < 0x10000000000000000) :
    nameWithin parent path = .ok (Path.nameWithin? parent path) := by
  unfold nameWithin Path.nameWithin?
  cases parent with
  | none => rfl
  | some parent =>
    dsimp only
    rw [cutLast_eq (show String.utf8EncodeChar '/' = [0x2F] from rfl) hsize, ok_bind]
    cases Split.splitLast? '/' path.toList with
    | none => rfl
    | some p =>
      obtain ⟨dir, name⟩ := p
      have hdir : (if String.ofList dir = "" then "/" else String.ofList dir) = parent ↔
          (if dir = [] then ['/'] else dir) = parent.toList := by
        rw [← String.toList_inj, apply_ite String.toList]
        simp
      simp only [Option.map_some, hdir]
      rfl

theorem isRegular_eq {name : String} (hsize : size name < 0x10000000000000000) :
    isRegular name = .ok (NodeName.isRegular name) := by
  unfold isRegular NodeName.isRegular NodeName.parts
  rw [cutLast_eq (show String.utf8EncodeChar '@' = [0x40] from rfl) hsize, ok_bind]
  cases Split.splitLast? '@' name.toList with
  | none => exact congrArg Except.ok (Bool.and_true _).symm
  | some p =>
    simp only [Option.map_some, String.toList_ofList]
    rfl

theorem join_eq {parent name : String} (hsize : size parent + size name + 1 < 0x10000000000000000) :
    join parent name = .ok (Path.join parent name) := by
  unfold join
  rw [add_eq_ok (by omega), ok_bind, add_eq_ok hsize, ok_bind]
  rfl

theorem size_join_le (parent name : String) : size (Path.join parent name) ≤ size parent + size name + 1 := by
  unfold Path.join
  split
  · rw [Utf8.size_append]
    omega
  · rw [Utf8.size_append, Utf8.size_append, show size "/" = 1 from rfl]
    omega

/-- A name within a path is no longer than the path. -/
theorem size_nameWithin?_le {parent : Option String} {path name : String}
    (h : Path.nameWithin? parent path = some name) : size name ≤ size path := by
  have := Path.nameWithin?_eq_some_iff.1 h
  cases parent with
  | none =>
    rw [this.2]
    exact Nat.zero_le _
  | some parent =>
    obtain ⟨-, dir, rfl, -⟩ := this
    rw [Utf8.size_append]
    exact Nat.le_add_left ..

end Run

end DeviceTree
