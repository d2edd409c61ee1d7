import DeviceTree.Proofs.Flatten

/-!
# Trees as a whole

How many levels a tree has (`height_le_iff`), the tree without its labels (`unlabelled`), trees that are changed node
by node (`preorder_map`), and lists of results, of which the first failure is the one of the whole (`mapM_eq_ok`,
`mapM_eq_error`).
-/

namespace DeviceTree

/-! ## Lists of results -/

section MapM

variable {α β ε : Type} {f : α → Except ε β} {g : α → β}

theorem mapM_eq_ok {l : List α} (h : ∀ a ∈ l, f a = .ok (g a)) : l.mapM f = .ok (l.map g) := by
  induction l with
  | nil => rfl
  | cons a l ih =>
    obtain ⟨ha, hl⟩ := List.forall_mem_cons.1 h
    rw [List.mapM_cons, ha, ih hl]
    rfl

/-- Where every result is good or fails in a way `E`, and one fails, the whole fails in that way. -/
theorem mapM_eq_error {E : ε → Prop} {l : List α} (h : ∀ a ∈ l, f a = .ok (g a) ∨ ∃ e, E e ∧ f a = .error e)
    (hfail : ∃ a ∈ l, ∃ e, f a = .error e) : ∃ e, E e ∧ l.mapM f = .error e := by
  induction l with
  | nil =>
    obtain ⟨a, ha, -⟩ := hfail
    exact absurd ha List.not_mem_nil
  | cons a l ih =>
    obtain ⟨ha, hl⟩ := List.forall_mem_cons.1 h
    rw [List.mapM_cons]
    rcases ha with ha | ⟨e, he, ha⟩
    · have hfail' : ∃ b ∈ l, ∃ e, f b = .error e := by
        obtain ⟨b, hb, e, he⟩ := hfail
        rcases List.mem_cons.1 hb with rfl | hb
        · rw [ha] at he
          cases he
        · exact ⟨b, hb, e, he⟩
      obtain ⟨e, he, hrest⟩ := ih hl hfail'
      refine ⟨e, he, ?_⟩
      rw [ha, hrest]
      rfl
    · refine ⟨e, he, ?_⟩
      rw [ha]
      rfl

/-- Where each result has something from what it is the result of, so has the list of them. -/
theorem map_of_mapM_eq_ok {γ : Type} {g : β → γ} {k : α → γ} {l : List α} {l' : List β} (h : l.mapM f = .ok l')
    (hf : ∀ a ∈ l, ∀ b, f a = .ok b → g b = k a) : l'.map g = l.map k := by
  induction l generalizing l' with
  | nil =>
    obtain rfl := Except.ok.inj h
    rfl
  | cons a l ih =>
    obtain ⟨ha, hl⟩ := List.forall_mem_cons.1 hf
    rw [List.mapM_cons] at h
    cases hb : f a with
    | error e =>
      rw [hb] at h
      cases h
    | ok b =>
      cases hbs : l.mapM f with
      | error e =>
        rw [hb, hbs] at h
        cases h
      | ok bs =>
        rw [hb, hbs] at h
        obtain rfl := Except.ok.inj h
        rw [List.map_cons, List.map_cons, ha b hb, ih hbs hl]

end MapM

theorem map_eq_self {α : Type} {f : α → α} {l : List α} (h : ∀ a ∈ l, f a = a) : l.map f = l :=
  (List.map_congr_left h).trans (List.map_id l)

namespace Node

theorem eta (n : Node) : Node.mk n.name n.path n.label n.properties n.children = n := by
  cases n
  rfl

theorem mem_preorder_trans {n m k : Node} (hm : m ∈ n.preorder) (hk : k ∈ m.preorder) : k ∈ n.preorder := by
  induction n using Node.induction with
  | step n ih =>
    rcases mem_preorder_iff.1 hm with rfl | ⟨c, hc, hm⟩
    · exact hk
    · exact mem_preorder_of_child hc (ih c hc hm)

/-- A tree that is changed node by node lists its nodes changed. -/
theorem preorder_map {g : Node → Node} (hg : ∀ n, (g n).children = n.children.map g) (n : Node) :
    (g n).preorder = n.preorder.map g := by
  induction n using Node.induction with
  | step n ih =>
    rw [preorder_eq, preorder_eq n, hg, List.map_cons, List.map_flatMap, List.flatMap_map]
    simp only [List.flatMap_def]
    rw [List.map_congr_left ih]

/-! ## Levels -/

theorem foldl_max_le_iff {l : List Nat} {m n : Nat} : l.foldl max m ≤ n ↔ m ≤ n ∧ ∀ a ∈ l, a ≤ n := by
  induction l generalizing m with
  | nil => simp
  | cons a l ih =>
    rw [List.foldl_cons, ih, List.forall_mem_cons, Nat.max_le, and_assoc]

theorem height_eq (n : Node) : n.height = (n.children.map height).foldl max 0 + 1 :=
  fold_eq ..

theorem height_le_iff {n : Node} {k : Nat} : n.height ≤ k + 1 ↔ ∀ c ∈ n.children, c.height ≤ k := by
  rw [height_eq, Nat.add_le_add_iff_right, foldl_max_le_iff]
  simp

/-! ## Trees without labels -/

/-- The tree with every label dropped, of nodes and of properties. -/
def unlabelled (n : Node) : Node :=
  n.fold fun n below =>
    { n with label := none, properties := n.properties.map Property.unlabelled, children := below }

theorem unlabelled_eq (n : Node) :
    n.unlabelled =
      { n with
        label := none
        properties := n.properties.map Property.unlabelled
        children := n.children.map unlabelled } :=
  fold_eq ..

end Node

end DeviceTree
