/-!
# Runs of bytes

A blob is a run of bytes, and so is every value stored in it. This module cuts such runs: at a count
(`split?`), at the next NUL (`untilNul?`), and into the NUL-terminated pieces it holds (`terminated`).
`padding` is the number of bytes up to the next multiple of a boundary.

* `split?_eq_some_iff`: a cut at a count loses nothing, and the front has that many bytes;
* `untilNul?_eq_some_iff`: a cut at the next NUL gives the NUL-free bytes before it and all bytes after it;
* `add_padding_mod`: padding reaches a multiple of the boundary.
-/

namespace DeviceTree

/-- A run of bytes. -/
abbrev Bytes := List UInt8

/-- How many bytes lie between `n` and the next multiple of `boundary`. -/
def padding (boundary n : Nat) : Nat :=
  (boundary - n % boundary) % boundary

theorem padding_lt {boundary : Nat} (h : 0 < boundary) (n : Nat) : padding boundary n < boundary :=
  Nat.mod_lt _ h

theorem add_padding_mod {boundary : Nat} (h : 0 < boundary) (n : Nat) :
    (n + padding boundary n) % boundary = 0 := by
  have hlt := Nat.mod_lt n h
  have hdiv := Nat.div_add_mod n boundary
  rw [padding, Nat.add_mod_mod,
    show n + (boundary - n % boundary) = boundary * (n / boundary + 1) by
      rw [Nat.mul_add, Nat.mul_one]; omega, Nat.mul_mod_right]

namespace Bytes

/-- The first `n` bytes and the rest, if there are that many. -/
def split? (n : Nat) (bs : Bytes) : Option (Bytes × Bytes) :=
  if (bs.take n).length = n then some (bs.take n, bs.drop n) else none

theorem split?_eq_some_iff {n : Nat} {bs front rest : Bytes} :
    split? n bs = some (front, rest) ↔ bs = front ++ rest ∧ front.length = n := by
  unfold split?
  refine ⟨fun h => ?_, fun h => ?_⟩
  · split at h
    · rename_i hn
      obtain ⟨rfl, rfl⟩ := Prod.mk.inj (Option.some.inj h)
      exact ⟨(List.take_append_drop n bs).symm, hn⟩
    · cases h
  · obtain ⟨rfl, rfl⟩ := h
    simp

theorem split?_append (front rest : Bytes) : split? front.length (front ++ rest) = some (front, rest) :=
  split?_eq_some_iff.2 ⟨rfl, rfl⟩

theorem split?_of_le {n : Nat} {bs : Bytes} (h : n ≤ bs.length) : split? n bs = some (bs.take n, bs.drop n) :=
  if_pos (by rw [List.length_take]; omega)

theorem split?_eq_none_iff {n : Nat} {bs : Bytes} : split? n bs = none ↔ bs.length < n := by
  simp only [split?, List.length_take, ite_eq_right_iff, reduceCtorEq, imp_false]
  omega

/-- The bytes before the next NUL and the bytes after it, if there is one. -/
def untilNul? (bs : Bytes) : Option (Bytes × Bytes) :=
  match bs.dropWhile (· != 0) with
  | [] => none
  | _ :: rest => some (bs.takeWhile (· != 0), rest)

@[simp] theorem untilNul?_nil : untilNul? [] = none := rfl

theorem untilNul?_cons (b : UInt8) (bs : Bytes) :
    untilNul? (b :: bs) =
      if b = 0 then some ([], bs) else (untilNul? bs).map fun (front, rest) => (b :: front, rest) := by
  by_cases hb : b = 0
  · simp [untilNul?, hb]
  · simp only [untilNul?, List.dropWhile_cons, List.takeWhile_cons, bne_iff_ne, ne_eq, hb,
      not_false_eq_true, if_true, if_false]
    split <;> rfl

theorem untilNul?_append {front : Bytes} (h : 0 ∉ front) (rest : Bytes) :
    untilNul? (front ++ 0 :: rest) = some (front, rest) := by
  induction front with
  | nil => simp [untilNul?_cons]
  | cons b front ih =>
    simp only [List.mem_cons, not_or] at h
    simp [untilNul?_cons, Ne.symm h.1, ih h.2]

theorem untilNul?_eq_some_iff {bs front rest : Bytes} :
    untilNul? bs = some (front, rest) ↔ bs = front ++ 0 :: rest ∧ 0 ∉ front := by
  refine ⟨fun h => ?_, fun ⟨hbs, hfront⟩ => hbs ▸ untilNul?_append hfront rest⟩
  induction bs generalizing front with
  | nil => cases h
  | cons b bs ih =>
    rw [untilNul?_cons] at h
    split at h
    · rename_i hb
      obtain ⟨rfl, rfl⟩ := Prod.mk.inj (Option.some.inj h)
      exact ⟨by simp [hb], by simp⟩
    · rename_i hb
      obtain ⟨⟨front', rest'⟩, hu, he⟩ := Option.map_eq_some_iff.1 h
      obtain ⟨rfl, rfl⟩ := Prod.mk.inj he
      obtain ⟨rfl, hfront⟩ := ih hu
      exact ⟨rfl, by simp [Ne.symm hb, hfront]⟩

theorem untilNul?_eq_none_iff {bs : Bytes} : untilNul? bs = none ↔ 0 ∉ bs := by
  induction bs with
  | nil => simp
  | cons b bs ih =>
    rw [untilNul?_cons]
    split
    · rename_i hb; simp [hb]
    · rename_i hb; simp [ih, Ne.symm hb]

/-- The NUL-terminated pieces that follow one another from the start, without their NULs. Bytes after
the last NUL belong to no piece. -/
def terminated : Bytes → List Bytes
  | [] => []
  | b :: bs =>
    if b = 0 then [] :: terminated bs
    else match terminated bs with
      | [] => []
      | piece :: pieces => (b :: piece) :: pieces

end Bytes

end DeviceTree
