import DeviceTree.Workbench
import DeviceTree.Proofs.Building
import DeviceTree.Proofs.Lookup

/-!
# Histories of trees

Every tree on a bench that started empty is one that can be made (`built_after`), and so is every tree that one of its
answers shows (`built_shown`): each step that puts a tree somewhere puts a new one, a copy, or one that lay there with a
change at the end of a walk, and each that shows one shows what lies there (`AllBuilt.step`). So paths follow in all of
them, in whatever order they were made, changed, copied and attached.

A tree whose paths follow has no more in it than the path of its root and what is left without paths
(`eq_of_withoutPaths`). Attaching keeps what is left without paths, so it does not show in a tree whether it was put
together from the leaves or from the root.

* `history_paths`: all of this for every history of a bench.
-/

namespace DeviceTree

namespace Node

/-! ## Trees without paths -/

/-- The tree with every recorded path dropped. What is left are names, labels, properties and the order of children. -/
def withoutPaths (n : Node) : Node :=
  n.fold fun n below => { n with path := "", children := below }

theorem withoutPaths_eq (n : Node) :
    n.withoutPaths = { n with path := "", children := n.children.map withoutPaths } :=
  fold_eq ..

theorem withoutPaths_placedUnder (n : Node) (parent : String) : (n.placedUnder parent).withoutPaths = n.withoutPaths := by
  induction n using Node.induction generalizing parent with
  | step n ih =>
    rw [placedUnder_eq, withoutPaths_eq, withoutPaths_eq n, List.map_map]
    have hchildren : n.children.map (withoutPaths ∘ (placedUnder · (Path.join parent n.name))) =
        n.children.map withoutPaths := List.map_congr_left fun c hc => ih c hc _
    rw [hchildren]

theorem placedUnder_withoutPaths (n : Node) (parent : String) : n.withoutPaths.placedUnder parent = n.placedUnder parent := by
  induction n using Node.induction generalizing parent with
  | step n ih =>
    rw [withoutPaths_eq, placedUnder_eq, placedUnder_eq n, List.map_map]
    have hchildren : n.children.map ((placedUnder · (Path.join parent n.name)) ∘ withoutPaths) =
        n.children.map (placedUnder · (Path.join parent n.name)) := List.map_congr_left fun c hc => ih c hc _
    rw [hchildren]

/-- Children whose paths follow are worked out from the path around them. -/
theorem PathsFollow.children_eq {n : Node} (h : n.PathsFollow) :
    n.children = n.withoutPaths.children.map (placedUnder · n.path) := by
  rw [withoutPaths_eq, List.map_map]
  refine (map_eq_self fun c hc => ?_).symm
  rw [Function.comp_apply, placedUnder_withoutPaths]
  exact (h.child hc).placedUnder_self (h n n.mem_preorder_self c hc)

/-- Two trees whose paths follow are equal where their roots have the same path and they are the same without paths. -/
theorem eq_of_withoutPaths {m n : Node} (hm : m.PathsFollow) (hn : n.PathsFollow) (hpath : m.path = n.path)
    (h : m.withoutPaths = n.withoutPaths) : m = n := by
  have hchildren : m.children = n.children := by
    rw [hm.children_eq, hn.children_eq, h, hpath]
  rw [withoutPaths_eq, withoutPaths_eq n] at h
  obtain ⟨hname, -, hlabel, hproperties, -⟩ := Node.mk.inj h
  rw [← eta m, ← eta n, hname, hpath, hlabel, hproperties, hchildren]

end Node

/-- The trees that an answer shows. -/
def Answer.shown : Answer → List Node
  | node n | tree n => [n]
  | lookup n => n.toList
  | decoded o => (o.result.toOption.map (·.root)).toList
  | _ => []

namespace Workbench

/-! ## What lies on the bench -/

/-- The trees on the bench: those in the slots, and that of the boot information. -/
def trees (w : Workbench) : List Node :=
  w.slots.map (·.2) ++ (w.info?.map (·.root)).toList

/-- Every tree on the bench is one that can be made. -/
def AllBuilt (w : Workbench) : Prop :=
  ∀ n ∈ w.trees, n.Built

/-- What a step comes to has only trees that can be made, on the bench and in the answer. -/
structure StepBuilt (r : Workbench × Answer) : Prop where
  bench : r.1.AllBuilt
  answer : ∀ n ∈ r.2.shown, n.Built

/-- The bench after some steps. -/
def after (w : Workbench) (steps : List Step) : Workbench :=
  steps.foldl (fun w s => (w.step s).1) w

variable {w : Workbench} {slot : String} {n : Node} {a : Address}

namespace StepBuilt

variable {r : Workbench × Answer}

theorem silent (hbench : r.1.AllBuilt) (h : r.2.shown = []) : StepBuilt r :=
  ⟨hbench, fun _ hm => absurd (h ▸ hm) List.not_mem_nil⟩

theorem showing (hbench : r.1.AllBuilt) (hn : n.Built) (h : r.2.shown = [n]) : StepBuilt r :=
  ⟨hbench, fun _ hm => List.mem_singleton.1 (h ▸ hm) ▸ hn⟩

/-- A search finds a node of a tree that can be made, or none. -/
theorem lookup (hbench : r.1.AllBuilt) (hn : n.Built) {found : Option Node} (h : r.2.shown = found.toList)
    (hfound : ∀ m, found = some m → m ∈ n.preorder) : StepBuilt r :=
  ⟨hbench, fun m hm => .copy hn (hfound m (Option.mem_toList.1 (h ▸ hm)))⟩

end StepBuilt

theorem mem_trees_iff : n ∈ w.trees ↔ (∃ slot, (slot, n) ∈ w.slots) ∨ ∃ info, w.info? = some info ∧ info.root = n := by
  simp [trees]

theorem mem_trees_of_slot? (h : w.slot? slot = some n) : n ∈ w.trees := by
  obtain ⟨before, after, hslots, -⟩ := List.lookup_eq_some_iff.1 h
  exact mem_trees_iff.2 (.inl ⟨slot, by rw [hslots]; simp⟩)

theorem mem_trees_of_start? (h : w.start? slot = some n) : n ∈ w.trees := by
  unfold start? at h
  split at h
  · exact mem_trees_iff.2 (.inr (Option.map_eq_some_iff.1 h))
  · exact mem_trees_of_slot? h

namespace AllBuilt

theorem clear (hw : w.AllBuilt) (slot : String) : (w.clear slot).AllBuilt := by
  intro m hm
  refine hw m (mem_trees_iff.2 ?_)
  exact (mem_trees_iff.1 hm).imp_left fun ⟨name, hname⟩ => ⟨name, (List.mem_filter.1 hname).1⟩

theorem setRoot (hw : w.AllBuilt) {info : BootInfo} (hinfo : info.root.Built) :
    AllBuilt { w with info? := some info } := by
  intro m hm
  rcases mem_trees_iff.1 hm with hslot | ⟨info', hinfo', rfl⟩
  · exact hw m (mem_trees_iff.2 (.inl hslot))
  · obtain rfl := Option.some.inj hinfo'
    exact hinfo

theorem put (hw : w.AllBuilt) (slot : String) (hn : n.Built) : (w.put slot n).AllBuilt := by
  intro m hm
  rcases mem_trees_iff.1 hm with ⟨name, hname⟩ | hinfo
  · rcases List.mem_cons.1 hname with heq | hname
    · obtain ⟨-, rfl⟩ := Prod.mk.inj heq
      exact hn
    · exact hw.clear slot m (mem_trees_iff.2 (.inl ⟨name, hname⟩))
  · exact hw m (mem_trees_iff.2 (.inr hinfo))

theorem setStart (hw : w.AllBuilt) (slot : String) (hn : n.Built) : (w.setStart slot n).AllBuilt := by
  unfold Workbench.setStart
  split
  · cases hinfo : w.info? with
    | none => exact fun m hm => hw m (by simpa [trees, hinfo] using hm)
    | some info => exact hw.setRoot hn
  · exact hw.put slot hn

theorem node (hw : w.AllBuilt) (h : w.node a = .ok n) : n.Built := by
  unfold Workbench.node at h
  split at h
  · rename_i tree hstart
    obtain ⟨around, hwalk⟩ := Node.walk_of_descend h
    exact .copy (hw tree (mem_trees_of_start? hstart)) hwalk.mem_preorder
  · cases h

theorem atNode {f : Node → Workbench × Answer} (hw : w.AllBuilt) (hf : ∀ n : Node, n.Built → StepBuilt (f n)) :
    StepBuilt (w.atNode a f) := by
  unfold Workbench.atNode
  split
  · rename_i n hn
    exact hf n (hw.node hn)
  · exact .silent hw rfl

theorem atInfo {f : BootInfo → Workbench × Answer} (hw : w.AllBuilt)
    (hf : ∀ info : BootInfo, info.root.Built → StepBuilt (f info)) : StepBuilt (w.atInfo f) := by
  unfold Workbench.atInfo
  split
  · rename_i info hinfo
    exact hf info (hw _ (mem_trees_iff.2 (.inr ⟨info, hinfo, rfl⟩)))
  · exact .silent hw rfl

/-- A change that keeps trees among those that can be made keeps the bench so, and shows such a tree. -/
theorem change {f : Node → Node} (hw : w.AllBuilt)
    (hf : ∀ {n n' : Node} {names : List String}, n.Built → n.modifyAt f names = .ok n' → n'.Built) :
    StepBuilt (w.change a f) := by
  unfold Workbench.change
  split
  · rename_i w' hmodify
    suffices hw' : w'.AllBuilt from hw'.atNode fun _ hn => .showing hw' hn rfl
    unfold modify at hmodify
    split at hmodify
    · rename_i n hstart
      cases hat : n.modifyAt f a.names with
      | error _ =>
        rw [hat] at hmodify
        cases hmodify
      | ok n' =>
        rw [hat] at hmodify
        obtain rfl := Except.ok.inj hmodify
        exact hw.setStart a.slot (hf (hw n (mem_trees_of_start? hstart)) hat)
    · cases hmodify
  · exact .silent hw rfl

/-- One step. What is read from a blob need not be a tree that can be made. -/
theorem step (hw : w.AllBuilt) {s : Step} (hs : s ≠ .decode) : StepBuilt (w.step s) := by
  cases s with
  | new slot name => exact .showing (hw.put slot (.named name)) (.named name) rfl
  | label a label => exact hw.change fun hn h => .label _ label hn h
  | addProperty a p => exact hw.change fun hn h => .addProperty _ p hn h
  | attach a child =>
    unfold Workbench.step
    dsimp only
    split
    · exact .silent hw rfl
    · rename_i n hchild
      have hn : n.Built := by
        split at hchild
        · cases hchild
        · exact hw n (mem_trees_of_slot? hchild)
      split
      · exact .silent hw rfl
      · exact (hw.clear child).change fun hm h => .attach _ hm hn h
  | copy a slot => exact hw.atNode fun _ hn => .showing (hw.put slot hn) hn rfl
  | setRoot a => exact hw.atNode fun _ hn => .showing (hw.setRoot hn) hn rfl
  | inspect a | dump a => exact hw.atNode fun _ hn => .showing hw hn rfl
  | property a name => exact hw.atNode fun _ _ => .silent hw rfl
  | child a name =>
    refine hw.atNode fun n hn => .lookup hw hn rfl fun m hm => ?_
    exact Node.mem_preorder_of_child (List.mem_of_find?_eq_some hm) m.mem_preorder_self
  | find path =>
    refine hw.atInfo fun info hinfo => .lookup hw hinfo rfl fun m hm => ?_
    obtain ⟨-, around, hwalk⟩ := BootInfo.find?_eq_some_iff.1 hm
    exact hwalk.mem_preorder
  | source => exact hw.atInfo fun _ _ => .silent hw rfl
  | reserve r => exact hw.atInfo fun _ hinfo => .silent (hw.setRoot hinfo) rfl
  | unreserve index => exact hw.atInfo fun _ hinfo => .silent (hw.setRoot hinfo) rfl
  | encode settings =>
    refine hw.atInfo fun info _ => ?_
    split <;> exact .silent hw rfl
  | assemble settings =>
    refine hw.atInfo fun info _ => ?_
    split <;> exact .silent hw rfl
  | patch offset bytes | cut length | append bytes => exact .silent hw rfl
  | decode => exact absurd rfl hs
  | compare left right => exact hw.atNode fun _ _ => hw.atNode fun _ _ => .silent hw rfl

theorem after (hw : w.AllBuilt) {steps : List Step} (hsteps : .decode ∉ steps) : (w.after steps).AllBuilt := by
  induction steps generalizing w with
  | nil => exact hw
  | cons s steps ih =>
    obtain ⟨hs, hsteps⟩ := not_or.1 (mt List.mem_cons.2 hsteps)
    exact ih (hw.step (Ne.symm hs)).bench hsteps

theorem run (hw : w.AllBuilt) {steps : List Step} (hsteps : .decode ∉ steps) :
    ∀ answer ∈ w.run steps, ∀ n ∈ answer.shown, n.Built := by
  induction steps generalizing w with
  | nil => exact fun _ hanswer => absurd hanswer List.not_mem_nil
  | cons s steps ih =>
    obtain ⟨hs, hsteps⟩ := not_or.1 (mt List.mem_cons.2 hsteps)
    obtain ⟨hbench, hshown⟩ := hw.step (Ne.symm hs)
    intro answer hanswer
    rcases List.mem_cons.1 hanswer with rfl | hanswer
    · exact hshown
    · exact ih hbench hsteps answer hanswer

theorem empty : AllBuilt {} :=
  fun _ hn => absurd hn List.not_mem_nil

end AllBuilt

variable {steps : List Step}

/-- Every tree made on a bench that started empty is one that can be made. -/
theorem built_after (hsteps : .decode ∉ steps) : (after {} steps).AllBuilt :=
  AllBuilt.empty.after hsteps

/-- Every tree that such a bench shows is one that can be made. -/
theorem built_shown (hsteps : .decode ∉ steps) : ∀ answer ∈ run {} steps, ∀ n ∈ answer.shown, n.Built :=
  AllBuilt.empty.run hsteps

/-! ## Attaching on the bench -/

theorem slot?_clear {name : String} (h : name ≠ slot) : (w.clear slot).slot? name = w.slot? name := by
  unfold slot? Workbench.clear
  induction w.slots with
  | nil => rfl
  | cons p slots ih =>
    obtain ⟨key, n⟩ := p
    by_cases hkey : key = slot
    · have hname : (name == key) = false := beq_eq_false_iff_ne.2 (hkey ▸ h)
      rw [List.filter_cons_of_neg (by simpa using hkey), ih, List.lookup_cons, hname]
    · rw [List.filter_cons_of_pos (by simpa using hkey), List.lookup_cons, List.lookup_cons, ih]

theorem start?_clear {name : String} (h : name ≠ slot) : (w.clear slot).start? name = w.start? name := by
  unfold start?
  rw [slot?_clear h]
  rfl

theorem change_eq {f : Node → Node} {m : Node} {around : Node → Node} (hstart : w.start? a.slot = some n)
    (hwalk : Node.Walk n a.names m around) : (w.change a f).1 = w.setStart a.slot (around (f m)) := by
  have hmodify : w.modify a f = .ok (w.setStart a.slot (around (f m))) := by
    unfold modify
    rw [hstart]
    dsimp only
    rw [hwalk.modifyAt]
    rfl
  unfold change
  rw [hmodify]
  dsimp only
  unfold atNode
  split <;> rfl

/-- A tree that is attached leaves its slot, and of the tree that it goes to only the node at the address changes. -/
theorem step_attach {child : String} {target c : Node} (hchild : child ≠ a.slot) (hslot : w.slot? child = some c)
    (htarget : w.node a = .ok target) :
    ∃ n around, w.start? a.slot = some n ∧ Node.Walk n a.names target around ∧
      (w.step (.attach a child)).1 = (w.clear child).setStart a.slot (around (target.attach c)) := by
  have hnode := htarget
  unfold node at hnode
  split at hnode
  · rename_i n hstart
    obtain ⟨around, hwalk⟩ := Node.walk_of_descend hnode
    refine ⟨n, around, hstart, hwalk, ?_⟩
    have hstart' : (w.clear child).start? a.slot = some n := by rw [start?_clear hchild.symm, hstart]
    unfold step
    dsimp only
    rw [if_neg hchild, hslot]
    dsimp only
    rw [htarget]
    exact change_eq hstart' hwalk
  · cases hnode

/-! ## Histories -/

/-- In every tree that can be made, and so in every tree on a bench after any steps but a reading and in every tree that
their answers show, the path of a child is the one around it joined with its name. Attaching a tree to a node changes nothing of the tree but its paths, and
of the node nothing but that it has a child more, the last one. Two trees that can be made are equal, paths and all,
where their roots have the same path and they are the same without paths. -/
theorem history_paths :
    (∀ n : Node, n.Built → ∀ m ∈ n.preorder, ∀ c ∈ m.children, c.path = Path.join m.path c.name) ∧
    (∀ steps : List Step, .decode ∉ steps →
      (∀ n ∈ (after {} steps).trees, n.Built) ∧ ∀ answer ∈ run {} steps, ∀ n ∈ answer.shown, n.Built) ∧
    (∀ (w : Workbench) (a : Address) (child : String) (target c : Node),
      child ≠ a.slot → w.slot? child = some c → w.node a = .ok target →
        ∃ n around moved, w.start? a.slot = some n ∧ Node.Walk n a.names target around ∧ around target = n ∧
          moved.withoutPaths = c.withoutPaths ∧ moved.path = Path.join target.path c.name ∧
          (w.step (.attach a child)).1 =
            (w.clear child).setStart a.slot (around { target with children := target.children ++ [moved] })) ∧
    (∀ m n : Node, m.Built → n.Built → m.path = n.path → m.withoutPaths = n.withoutPaths → m = n) := by
  refine ⟨fun n hn => hn.pathsConsistent.2, fun steps hsteps => ⟨built_after hsteps, built_shown hsteps⟩, ?_, ?_⟩
  · intro w a child target c hchild hslot htarget
    obtain ⟨n, around, hstart, hwalk, hstep⟩ := step_attach hchild hslot htarget
    refine ⟨n, around, c.placedUnder target.path, hstart, hwalk, hwalk.around_self, c.withoutPaths_placedUnder _, ?_,
      hstep⟩
    rw [Node.placedUnder_eq]
  · intro m n hm hn hpath h
    exact Node.eq_of_withoutPaths hm.pathsConsistent.2 hn.pathsConsistent.2 hpath h

/-- A tree put together from the leaves. -/
def fromLeaves : List Step :=
  [.new "port" "port", .new "uart" "uart@1000", .attach ⟨"uart", []⟩ "port", .new "soc" "soc",
    .attach ⟨"soc", []⟩ "uart", .new "root" "", .attach ⟨"root", []⟩ "soc"]

/-- The same tree put together from the root. -/
def fromRoot : List Step :=
  [.new "root" "", .new "soc" "soc", .attach ⟨"root", []⟩ "soc", .new "uart" "uart@1000",
    .attach ⟨"root", ["soc"]⟩ "uart", .new "port" "port", .attach ⟨"root", ["soc", "uart@1000"]⟩ "port"]

theorem history_paths_order :
    ∃ m n, (after {} fromLeaves).slot? "root" = some m ∧ (after {} fromRoot).slot? "root" = some n ∧ m = n := by
  obtain ⟨-, hbuilt, -, hunique⟩ := history_paths
  obtain ⟨m, hm⟩ : ∃ m, (after {} fromLeaves).slot? "root" = some m := ⟨_, rfl⟩
  obtain ⟨n, hn⟩ : ∃ n, (after {} fromRoot).slot? "root" = some n := ⟨_, rfl⟩
  have hsame : ((after {} fromLeaves).slot? "root").map (fun k => (k.path, k.withoutPaths)) =
      ((after {} fromRoot).slot? "root").map fun k => (k.path, k.withoutPaths) := by decide
  rw [hm, hn] at hsame
  obtain ⟨hpath, hrest⟩ := Prod.mk.inj (Option.some.inj hsame)
  exact ⟨m, n, hm, hn, hunique m n ((hbuilt fromLeaves (by decide)).1 m (mem_trees_of_slot? hm))
    ((hbuilt fromRoot (by decide)).1 n (mem_trees_of_slot? hn)) hpath hrest⟩

end Workbench

end DeviceTree
