/-!
# Splitting texts at a separator

* `splitLast?`: the characters before and after the last separator;
* `words`: the non-empty stretches between separators.
-/

namespace DeviceTree.Split

/-- The characters before and after the last `sep`, if there is one. -/
def splitLast? (sep : Char) : List Char → Option (List Char × List Char)
  | [] => none
  | c :: cs =>
    match splitLast? sep cs with
    | some (before, after) => some (c :: before, after)
    | none => if c = sep then some ([], cs) else none

theorem splitLast?_eq_none_iff {sep : Char} {cs : List Char} : splitLast? sep cs = none ↔ sep ∉ cs := by
  induction cs with
  | nil => simp [splitLast?]
  | cons c cs ih =>
    rw [splitLast?]
    cases h : splitLast? sep cs with
    | some p =>
      have : sep ∈ cs := Decidable.byContradiction fun hn => by simp [ih.2 hn] at h
      simp [this]
    | none =>
      have := ih.1 h
      by_cases hc : c = sep <;> simp [hc, this]
      exact Ne.symm hc

theorem splitLast?_eq_some_iff {sep : Char} {cs before after : List Char} :
    splitLast? sep cs = some (before, after) ↔ cs = before ++ sep :: after ∧ sep ∉ after := by
  induction cs generalizing before after with
  | nil => simp [splitLast?]
  | cons c cs ih =>
    rw [splitLast?]
    cases h : splitLast? sep cs with
    | some p =>
      obtain ⟨b, a⟩ := p
      obtain ⟨rfl, ha⟩ := ih.1 h
      refine ⟨fun h => ?_, fun h => ?_⟩
      · cases h
        exact ⟨rfl, ha⟩
      · obtain ⟨he, hn⟩ := h
        cases before with
        | nil =>
          obtain ⟨rfl, rfl⟩ := List.cons.inj he
          simp at hn
        | cons x before =>
          obtain ⟨rfl, htail⟩ := List.cons.inj he
          have := ih.2 ⟨htail, hn⟩
          rw [h] at this
          obtain ⟨rfl, rfl⟩ := Prod.mk.inj (Option.some.inj this)
          rfl
    | none =>
      have hcs := splitLast?_eq_none_iff.1 h
      by_cases hc : c = sep
      · subst hc
        simp only [if_true, Option.some.injEq, Prod.mk.injEq]
        refine ⟨fun h => ?_, fun h => ?_⟩
        · obtain ⟨rfl, rfl⟩ := h
          exact ⟨rfl, hcs⟩
        · obtain ⟨he, hn⟩ := h
          cases before with
          | nil => exact ⟨rfl, (List.cons.inj he).2⟩
          | cons x before =>
            exact absurd ((List.cons.inj he).2 ▸ by simp) hcs
      · simp only [hc, if_false, reduceCtorEq, false_iff, not_and]
        intro he _
        cases before with
        | nil => exact hc (List.cons.inj he).1
        | cons x before => exact hcs ((List.cons.inj he).2 ▸ by simp)

/-- The stretches of `cs` between separators, empty ones included. -/
def pieces (sep : Char) : List Char → List (List Char)
  | [] => [[]]
  | c :: cs =>
    if c = sep then [] :: pieces sep cs
    else match pieces sep cs with
      | [] => [[c]]
      | piece :: rest => (c :: piece) :: rest

/-- The non-empty stretches of `cs` between separators. -/
def words (sep : Char) (cs : List Char) : List (List Char) :=
  (pieces sep cs).filter (· ≠ [])

end DeviceTree.Split
