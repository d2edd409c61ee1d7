import DeviceTree.Proofs.Progress

/-!
# The nodes that are open at a place

A structure block that is read in part has a front of the grammar's records, which need not close every node that
they open (`Format.Opens`). Reading stands behind such a front, with just its nodes open: one token more is one record
more (`Stands.step`), and so it is after any number of them (`Stands.steps`), up to the token at which the reading
fails (`Stands.of_readOpen_error`) or behind the root (`Stands.of_readOpen_ok`).
-/

namespace DeviceTree

open BigEndian (word32)

/-- What the records at the front of a structure block leave open: nodes with these paths, the innermost first. Where
none is left, the root has closed. -/
inductive Format.Opens (g : Context) : (paths : List String) → (front : Bytes) → Prop where
  /-- The root opens. -/
  | root {opening : Bytes} {name path : String} (hopening : IsOpening g none 0 opening name path) :
    Opens g [path] opening
  /-- A property goes to the innermost node. -/
  | property {path : String} {paths : List String} {front record : Bytes} {p : Property}
    (hfront : Opens g (path :: paths) front) (hp : IsProperty g front.length record p) :
    Opens g (path :: paths) (front ++ record)
  /-- A node opens inside the innermost one. -/
  | child {path name inner : String} {paths : List String} {front opening : Bytes}
    (hfront : Opens g (path :: paths) front) (hdepth : paths.length + 1 < 256)
    (hopening : IsOpening g (some path) front.length opening name inner) :
    Opens g (inner :: path :: paths) (front ++ opening)
  /-- The innermost node closes. -/
  | endNode {path : String} {paths : List String} {front : Bytes} (hfront : Opens g (path :: paths) front) :
    Opens g paths (front ++ word32 Token.endNode.word)

namespace BlockReader

variable {r : BlockReader} {g : Format.Context} {base : Nat} {block : Bytes} {s s' : Reading} {n : Nat}

/-- The cursor stands in the block behind a front that leaves open nodes with these paths. -/
def StandsAt (g : Format.Context) (base : Nat) (block : Bytes) (paths : List String) (c : Cursor) : Prop :=
  ∃ front rest, block = front ++ rest ∧ c = .inBlock base front.length rest ∧ Format.Opens g paths front

/-- The reading stands behind a front that leaves its nodes open. -/
def Stands (g : Format.Context) (base : Nat) (block : Bytes) (s : Reading) : Prop :=
  StandsAt g base block (s.inner.path :: s.outer.map (·.path)) s.cursor

/-- One record more, at the cursor. -/
theorem standsAt_append {front record rest : Bytes} {paths : List String} (hblock : block = front ++ (record ++ rest))
    (hopens : Format.Opens g paths (front ++ record)) :
    StandsAt g base block paths (.inBlock base (front.length + record.length) rest) :=
  ⟨front ++ record, rest, by rw [hblock, List.append_assoc], by rw [List.length_append], hopens⟩

theorem Stands.step (hr : r.Reads g) (h : Stands g base block s) (hstep : r.GoesOn s s') :
    Stands g base block s' := by
  obtain ⟨inner, outer, c⟩ := s
  obtain ⟨front, rest, hblock, hc, hopens⟩ := h
  obtain rfl : c = .inBlock base front.length rest := hc
  cases (step_eq_ok_iff hr).1 hstep with
  | endNode houter =>
    subst houter
    exact standsAt_append hblock (.endNode hopens)
  | property hp => exact standsAt_append hblock (.property hopens hp)
  | beginNode hdepth hopening =>
    exact standsAt_append hblock (.child hopens (by rw [List.length_map]; exact hdepth) hopening)

/-- When the root has closed, the reading stands behind it. -/
theorem Stands.closed (hr : r.Reads g) (h : Stands g base block s) {root : Node} {c : Cursor}
    (hstep : (r.step s).result = .ok (.closed root c)) : StandsAt g base block [] c := by
  obtain ⟨inner, outer, c'⟩ := s
  obtain ⟨front, rest, hblock, hc, hopens⟩ := h
  obtain rfl : c' = .inBlock base front.length rest := hc
  cases (step_eq_ok_iff hr).1 hstep with
  | closed houter =>
    subst houter
    exact standsAt_append hblock (.endNode hopens)

theorem Stands.steps (hr : r.Reads g) (h : Stands g base block s) (hsteps : Steps r.GoesOn n s s') :
    Stands g base block s' := by
  induction hsteps with
  | zero => exact h
  | succ hstep _ ih => exact ih (h.step hr hstep)

/-- A reading that fails comes to a token that is at fault, with its nodes open there. -/
theorem Stands.of_readOpen_error (hr : r.Reads g) (h : Stands g base block s) {e : DecodeError}
    (hread : (r.readOpen s).result = .error e) :
    ∃ last, Stands g base block last ∧ (r.step last).result = .error e := by
  obtain ⟨n, last, hsteps, hfinal⟩ := r.readOpen_ends s
  refine ⟨last, h.steps hr hsteps, ?_⟩
  rw [hread] at hfinal
  cases hstep : (r.step last).result with
  | error e' =>
    rw [hstep] at hfinal
    obtain rfl := Except.error.inj (Option.some.inj hfinal)
    rfl
  | ok p =>
    rw [hstep] at hfinal
    cases p <;> cases hfinal

/-- A reading that succeeds comes to where the root has closed. -/
theorem Stands.of_readOpen_ok (hr : r.Reads g) (h : Stands g base block s) {root : Node} {c : Cursor}
    (hread : (r.readOpen s).result = .ok (root, c)) : StandsAt g base block [] c := by
  obtain ⟨n, last, hsteps, hfinal⟩ := r.readOpen_ends s
  rw [hread] at hfinal
  cases hstep : (r.step last).result with
  | error e =>
    rw [hstep] at hfinal
    cases hfinal
  | ok p =>
    rw [hstep] at hfinal
    cases p with
    | reading s' => cases hfinal
    | closed root' c' =>
      obtain ⟨rfl, rfl⟩ := Prod.mk.inj (Except.ok.inj (Option.some.inj hfinal))
      exact (h.steps hr hsteps).closed hr hstep

/-- The root that has just been opened is the only open node. -/
theorem stands_of_readOpening (hr : r.Reads g) {root : Node} {bs : Bytes} {c : Cursor}
    (h : (r.readOpening none (.inBlock base (0 + 4) bs)).result = .ok (root, c)) :
    Stands g base (word32 Token.beginNode.word ++ bs) ⟨root, [], c⟩ := by
  obtain ⟨opening, rest, name, path, hbs, hopening, rfl, rfl⟩ := (readOpening_eq_ok_iff hr).1 h
  exact ⟨opening, rest, hbs, by rw [Nat.zero_add], .root hopening⟩

end BlockReader
end DeviceTree
