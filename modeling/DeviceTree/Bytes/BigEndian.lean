import DeviceTree.Bytes

/-!
# Big-endian numbers

Every number in a blob is stored with its most significant byte first. `encode width n` is that form in
`width` bytes, `value` reads one back.

* `value_encode`: what is written reads back, modulo the width;
* `encode_value`: every run of bytes is the written form of its value.
-/

namespace DeviceTree.BigEndian

/-- How many numbers there are of so many bytes. -/
def limit : (width : Nat) → Nat
  | 0 => 1
  | width + 1 => limit width * 256

/-- The `width` low bytes of `n`, most significant first. -/
def encode : (width n : Nat) → Bytes
  | 0, _ => []
  | width + 1, n => UInt8.ofNat (n / limit width) :: encode width n

/-- The number whose digits in base 256 are `bs`, most significant first. -/
def value (bs : Bytes) : Nat :=
  bs.foldl (fun n b => n * 256 + b.toNat) 0

theorem limit_succ (width : Nat) : limit (width + 1) = limit width * 256 := rfl

theorem limit_pos (width : Nat) : 0 < limit width := by
  induction width with
  | zero => exact Nat.one_pos
  | succ width ih => exact Nat.mul_pos ih (by decide)

@[simp] theorem length_encode (width n : Nat) : (encode width n).length = width := by
  induction width with
  | zero => rfl
  | succ width ih => simp [encode, ih]

theorem foldl_eq (bs : Bytes) (n : Nat) :
    bs.foldl (fun n b => n * 256 + b.toNat) n = n * limit bs.length + value bs := by
  induction bs generalizing n with
  | nil => simp [value, limit]
  | cons b bs ih =>
    simp only [List.foldl_cons, List.length_cons, value]
    rw [ih, ih (0 * 256 + b.toNat), limit_succ, Nat.add_mul, Nat.zero_mul, Nat.zero_add,
      Nat.mul_assoc, Nat.mul_comm 256, Nat.add_assoc]

theorem value_cons (b : UInt8) (bs : Bytes) : value (b :: bs) = b.toNat * limit bs.length + value bs := by
  simpa [value] using foldl_eq bs (b.toNat)

theorem value_lt (bs : Bytes) : value bs < limit bs.length := by
  induction bs with
  | nil => exact limit_pos 0
  | cons b bs ih =>
    have hb := b.toNat_lt
    rw [value_cons, List.length_cons, limit_succ, Nat.mul_comm _ 256]
    have := Nat.mul_le_mul_right (limit bs.length) (Nat.succ_le_of_lt hb)
    rw [Nat.succ_mul] at this
    omega

theorem value_encode (width n : Nat) : value (encode width n) = n % limit width := by
  induction width with
  | zero => simp [encode, value, limit, Nat.mod_one]
  | succ width ih =>
    have htop : (UInt8.ofNat (n / limit width)).toNat = n / limit width % 256 := UInt8.toNat_ofNat'
    rw [encode, value_cons, ih, length_encode, htop, limit_succ, Nat.mod_mul, Nat.mul_comm,
      Nat.add_comm]

theorem encode_congr (width : Nat) {m n : Nat} (h : m % limit width = n % limit width) :
    encode width m = encode width n := by
  induction width with
  | zero => rfl
  | succ width ih =>
    have hp : 0 < limit width := limit_pos _
    have hlow : m % limit width = n % limit width := by
      rw [← Nat.mod_mod_of_dvd m (Nat.dvd_mul_right (limit width) 256), ← limit_succ, h, limit_succ,
        Nat.mod_mod_of_dvd n (Nat.dvd_mul_right (limit width) 256)]
    have htop : m / limit width % 256 = n / limit width % 256 := by
      rw [limit_succ, Nat.mod_mul, Nat.mod_mul, hlow] at h
      exact Nat.eq_of_mul_eq_mul_left hp (Nat.add_left_cancel h)
    rw [encode, encode, ih hlow]
    exact congrArg (· :: _) (UInt8.toNat_inj.1 (by simpa [UInt8.toNat_ofNat'] using htop))

theorem encode_value (bs : Bytes) : encode bs.length (value bs) = bs := by
  induction bs with
  | nil => rfl
  | cons b bs ih =>
    have hv := value_lt bs
    have hp : 0 < limit bs.length := limit_pos _
    have hlow : value (b :: bs) % limit bs.length = value bs % limit bs.length := by
      rw [value_cons, Nat.mul_comm, Nat.mul_add_mod]
    rw [List.length_cons, encode, encode_congr _ hlow, ih]
    congr 1
    rw [value_cons, Nat.mul_comm, Nat.mul_add_div hp, Nat.div_eq_of_lt hv, Nat.add_zero]
    simp

/-! ## Words of 16, 32 and 64 bits -/

/-- A 32-bit word as it stands in a blob. -/
def word32 (w : UInt32) : Bytes := encode 4 w.toNat

/-- A 64-bit word as it stands in a blob. -/
def word64 (w : UInt64) : Bytes := encode 8 w.toNat

/-- The 32-bit word at the front of `bs` and the bytes after it, if four bytes are left. -/
def word32? (bs : Bytes) : Option (UInt32 × Bytes) :=
  (bs.split? 4).map fun (front, rest) => (UInt32.ofNat (value front), rest)

@[simp] theorem length_word32 (w : UInt32) : (word32 w).length = 4 := length_encode 4 _

@[simp] theorem length_word64 (w : UInt64) : (word64 w).length = 8 := length_encode 8 _

theorem word32?_append (w : UInt32) (rest : Bytes) : word32? (word32 w ++ rest) = some (w, rest) := by
  have h := Bytes.split?_append (word32 w) rest
  rw [length_word32] at h
  have hw : UInt32.ofNat (value (word32 w)) = w :=
    UInt32.toNat_inj.1 (by simp [word32, value_encode, limit])
  simp only [word32?, h, Option.map_some, hw]

theorem word32?_eq_some_iff {bs rest : Bytes} {w : UInt32} :
    word32? bs = some (w, rest) ↔ bs = word32 w ++ rest := by
  refine ⟨fun h => ?_, fun h => h ▸ word32?_append w rest⟩
  obtain ⟨⟨front, rest'⟩, hs, he⟩ := Option.map_eq_some_iff.1 h
  obtain ⟨rfl, rfl⟩ := Prod.mk.inj he
  obtain ⟨rfl, hlen⟩ := Bytes.split?_eq_some_iff.1 hs
  have hlt : value front < 0x100000000 := by
    have := value_lt front
    rw [hlen] at this
    exact this
  rw [word32, UInt32.toNat_ofNat_of_lt' hlt, ← hlen, encode_value]

theorem word32?_eq_none_iff {bs : Bytes} : word32? bs = none ↔ bs.length < 4 := by
  simp [word32?, Bytes.split?_eq_none_iff]

end DeviceTree.BigEndian
