import DeviceTree.Conversion
import DeviceTree.Proofs.StoredForm

/-!
# Round trips one after the other

Written and read back, a tree is `converted`: it loses its labels, and before version 16 it gains the base names that
it does not have yet. Two conversions one after the other are one, before version 16 if either of them is
(`converted_converted`). What is `Convertible` comes back converted from every version (`Convertible.ofBlob_blobBytes`)
and then is convertible again (`Convertible.of_ofBlob`), so any number of round trips leads to one conversion
(`Convertible.roundTrips_eq`).

* `roundTrips_result`: what a chain of round trips through any versions leads to.
-/

namespace DeviceTree

namespace Node

theorem unlabelled_unlabelled (n : Node) : n.unlabelled.unlabelled = n.unlabelled := by
  induction n using Node.induction with
  | step n ih =>
    have hchildren : (n.children.map unlabelled).map unlabelled = n.children.map unlabelled := by
      rw [List.map_map]
      exact List.map_congr_left ih
    rw [Node.unlabelled_eq n, Node.unlabelled_eq, hchildren, List.map_map]
    rfl

theorem withBaseNames_withBaseNames (n : Node) : n.withBaseNames.withBaseNames = n.withBaseNames := by
  induction n using Node.induction with
  | step n ih =>
    have hchildren : (n.children.map withBaseNames).map withBaseNames = n.children.map withBaseNames := by
      rw [List.map_map]
      exact List.map_congr_left ih
    rw [withBaseNames_eq n, withBaseNames_eq, hchildren]
    cases hany : n.properties.any (·.name == "name") with
    | true => simp [hany]
    | false => simp

/-- What a tree is after a round trip, by its paths or by its names. -/
def converted (byPaths : Bool) (n : Node) : Node :=
  if byPaths then n.withBaseNames.unlabelled else n.unlabelled

theorem converted_converted (byPaths byPaths' : Bool) (n : Node) :
    (n.converted byPaths).converted byPaths' = n.converted (byPaths || byPaths') := by
  cases byPaths <;> cases byPaths' <;>
    simp [converted, unlabelled_withBaseNames, unlabelled_unlabelled, withBaseNames_withBaseNames]

/-- A conversion and more after it are one. -/
theorem foldl_converted {α : Type} (f : α → Bool) (as : List α) (b : Bool) (n : Node) :
    as.foldl (fun n a => n.converted (f a)) (n.converted b) = n.converted (b || as.any f) := by
  induction as generalizing b with
  | nil => simp
  | cons a as ih => rw [List.foldl_cons, converted_converted, ih, List.any_cons, Bool.or_assoc]

/-- A change of nodes that leaves the names and paths, and each where it is. -/
structure KeepsNodes (g : Node → Node) : Prop where
  name (n : Node) : (g n).name = n.name
  path (n : Node) : (g n).path = n.path
  children (n : Node) : (g n).children = n.children.map g

theorem keepsNodes_converted (byPaths : Bool) : KeepsNodes (converted byPaths) := by
  cases byPaths with
  | true =>
    refine ⟨fun n => ?_, fun n => ?_, fun n => ?_⟩ <;>
      simp [converted, withBaseNames_eq n, Node.unlabelled_eq]
  | false =>
    refine ⟨fun n => ?_, fun n => ?_, fun n => ?_⟩ <;>
      simp [converted, Node.unlabelled_eq n]

theorem KeepsNodes.map_path {g : Node → Node} (hg : KeepsNodes g) (n : Node) :
    (g n).preorder.map Node.path = n.preorder.map Node.path := by
  rw [preorder_map hg.children, List.map_map]
  exact List.map_congr_left fun m _ => hg.path m

theorem KeepsNodes.forall_name {g : Node → Node} (hg : KeepsNodes g) {p : String → Prop} {n : Node}
    (h : ∀ m ∈ n.preorder, p m.name) : ∀ m ∈ (g n).preorder, p m.name := by
  rw [preorder_map hg.children, List.forall_mem_map]
  exact fun m hm => (hg.name m).symm ▸ h m hm

theorem KeepsNodes.pathsFollow {g : Node → Node} (hg : KeepsNodes g) {n : Node} (h : n.PathsFollow) :
    (g n).PathsFollow := by
  unfold PathsFollow
  rw [preorder_map hg.children, List.forall_mem_map]
  intro m hm
  rw [hg.children, List.forall_mem_map]
  intro c hc
  rw [hg.path, hg.path, hg.name]
  exact h m hm c hc

end Node

namespace BootInfo

open BlockReader (Fit)

variable {info : BootInfo} {s : Settings} {v : Version}

/-- Boot information that comes back from every version: it can be written, its paths are those of a root that has
a slash as its path, and only the root's name is empty. -/
structure Convertible (info : BootInfo) : Prop where
  writable : info.Writable
  levels : info.root.height ≤ maxNesting
  paths : info.root.PathsFollow
  name : info.root.name = ""
  path : info.root.path = "/"
  names : ∀ c ∈ info.root.children, ∀ m ∈ c.preorder, m.name ≠ ""

theorem Convertible.root_path_eq (h : info.Convertible) : info.root.path = Path.join "/" info.root.name := by
  rw [h.path, h.name]
  decide

/-- No path but that of the root ends in a slash. -/
theorem Convertible.bears (h : info.Convertible) : ∀ m ∈ info.root.preorder, Path.Bears m.path := by
  intro m hm
  have hconsistent : info.root.PathsConsistent := ⟨⟨"/", h.root_path_eq⟩, h.paths⟩
  rcases Node.mem_preorder_iff.1 hm with rfl | ⟨c, hc, hmc⟩
  · exact fun _ => h.path
  · obtain ⟨parent, hpath⟩ := (hconsistent.of_mem_preorder hm).1
    rw [hpath]
    exact fun hlast => absurd hlast (Path.not_slash_join parent (h.names c hc m hmc) (h.writable.names m hm).2)

/-- What is written comes back converted. -/
theorem Convertible.ofBlob_blobBytes (h : info.Convertible) (hfit : info.SizesFit v) (bootCpuid : UInt32) :
    (ofBlob (info.blobBytes v bootCpuid)).result =
      .ok { info with root := info.root.converted (decide (v.number < 16)) } := by
  by_cases hv : v = .v16
  · subst hv
    have hkeeps := Node.keepsNodes_converted false
    have hself : info.root.unlabelled.placedUnder "/" = info.root.unlabelled :=
      (hkeeps.pathsFollow h.paths).placedUnder_self (by rw [hkeeps.path, hkeeps.name, h.root_path_eq])
    rw [ofBlob_blobBytes_of_names h.writable hfit h.levels, hself]
    rfl
  · have hroot : Fit info.root 0 :=
      ⟨⟨⟨"/", h.root_path_eq⟩, h.paths⟩, fun m hm => (h.writable.names m hm).2, by have := h.levels; omega⟩
    have hnul : '\x00' ∉ info.root.path.toList := by
      rw [h.path]
      decide
    rcases ofBlob_of_fit h.writable hfit hv hroot hnul bootCpuid with ⟨-, hread⟩ | ⟨hbad, -⟩
    · rw [hread, decide_eq_true (Version.number_lt_of_ne hv)]
      rfl
    · exact absurd ⟨h.path, fun m hm => .inl (h.bears m hm)⟩ hbad

/-- What comes back is convertible again. -/
theorem Convertible.of_ofBlob (h : info.Convertible) (hfit : info.SizesFit v) {bootCpuid : UInt32} {byPaths : Bool}
    (hread : (ofBlob (info.blobBytes v bootCpuid)).result = .ok { info with root := info.root.converted byPaths }) :
    Convertible { info with root := info.root.converted byPaths } := by
  have hkeeps := Node.keepsNodes_converted byPaths
  have hnul : '\x00' ∉ info.root.path.toList := by
    rw [h.path]
    decide
  refine ⟨writable_of_ofBlob h.writable hfit (h.writable.nul_notMem_storedId fun _ => ⟨h.paths, hnul⟩) hread,
    (ofBlob_held hread (version_blobBytes hfit bootCpuid)).levels, hkeeps.pathsFollow h.paths,
    (hkeeps.name _).trans h.name, (hkeeps.path _).trans h.path, ?_⟩
  show ∀ c ∈ (info.root.converted byPaths).children, _
  rw [hkeeps.children, List.forall_mem_map]
  exact fun c hc => hkeeps.forall_name (p := (· ≠ "")) (h.names c hc)

/-- The boot information written and read back, once for each of the settings, up to the first error. -/
def roundTrips (info : BootInfo) : List Settings → Except (DecodeError ⊕ EncodeError) BootInfo
  | [] => .ok info
  | s :: ss =>
    match info.roundTrip s with
    | .error e => .error (.inr e)
    | .ok trip =>
      match trip.back.result with
      | .error e => .error (.inl e)
      | .ok back => back.roundTrips ss

theorem roundTrips_of_refused {e : EncodeError} (ss : List Settings) (h : (info.toBlob s).result = .error e) :
    info.roundTrips (s :: ss) = .error (.inr e) := by
  rw [roundTrips, roundTrip, h]
  rfl

theorem roundTrips_of_back {b : Bytes} {back : BootInfo} (ss : List Settings) (h : (info.toBlob s).result = .ok b)
    (hread : (ofBlob b).result = .ok back) : info.roundTrips (s :: ss) = back.roundTrips ss := by
  rw [roundTrips, roundTrip, h]
  show (match (ofBlob b).result with | .error e => _ | .ok back => _) = _
  rw [hread]

theorem Convertible.roundTrips_eq {ss : List Settings} (h : info.Convertible)
    (hversions : ∀ s ∈ ss, s.version ∈ [1, 2, 3, 16])
    (hsizes : ∀ q, info.roundTrips ss ≠ .error (.inr (.tooLarge q))) :
    info.roundTrips ss =
      .ok { info with root := ss.foldl (fun n s => n.converted (decide (s.version < 16))) info.root } := by
  induction ss generalizing info with
  | nil => rfl
  | cons s ss ih =>
    obtain ⟨hs, hss⟩ := List.forall_mem_cons.1 hversions
    obtain ⟨v, hv⟩ := Version.exists_of_mem hs
    obtain ⟨hfit, hb⟩ := toBlob_of_writable hv h.writable fun q hq => hsizes q (roundTrips_of_refused ss hq)
    have hread := h.ofBlob_blobBytes hfit s.blobCpuid
    rw [Version.number_of_ofNumber? hv] at hread
    rw [roundTrips_of_back ss hb hread] at hsizes ⊢
    rw [ih (h.of_ofBlob hfit hread) hss hsizes, List.foldl_cons]

/-- A chain of round trips through any versions, if its sizes fit, comes to an end, with the reservations and the paths
that were there at the start. The tree has lost its labels, and every node without a name property has gained one if
some version was before 16. This holds of what can be written at all, with paths that follow from a root without a
name, whose path is a slash, and with no other empty name. -/
theorem roundTrips_result {info : BootInfo} {ss : List Settings} (hwritten : ∃ s b, (info.toBlob s).result = .ok b)
    (hlevels : info.root.height ≤ maxNesting)
    (hpaths : ∀ m ∈ info.root.preorder, ∀ c ∈ m.children, c.path = Path.join m.path c.name)
    (hname : info.root.name = "") (hpath : info.root.path = "/")
    (hnames : ∀ c ∈ info.root.children, ∀ m ∈ c.preorder, m.name ≠ "")
    (hss : ss ≠ []) (hversions : ∀ s ∈ ss, s.version ∈ [1, 2, 3, 16])
    (hsizes : ∀ q, info.roundTrips ss ≠ .error (.inr (.tooLarge q))) :
    ∃ back, info.roundTrips ss = .ok back ∧ back.reservations = info.reservations ∧
      back.root = (if ∃ s ∈ ss, s.version < 16 then info.root.withBaseNames.unlabelled else info.root.unlabelled) ∧
        back.root.preorder.map Node.path = info.root.preorder.map Node.path := by
  obtain ⟨s, b, hb⟩ := hwritten
  obtain ⟨_, -, hwritable, -, -⟩ := toBlob_eq_ok_iff.1 hb
  have h : info.Convertible := ⟨hwritable, hlevels, hpaths, hname, hpath, hnames⟩
  have hroot : ss.foldl (fun n s => n.converted (decide (s.version < 16))) info.root =
      info.root.converted (ss.any fun s => decide (s.version < 16)) := by
    cases ss with
    | nil => exact absurd rfl hss
    | cons s ss => rw [List.foldl_cons, Node.foldl_converted, List.any_cons]
  refine ⟨_, h.roundTrips_eq hversions hsizes, rfl, ?_, ?_⟩
  · rw [hroot, Node.converted]
    simp only [List.any_eq_true, decide_eq_true_eq]
  · rw [hroot]
    exact (Node.keepsNodes_converted _).map_path _

/-- The sample through the oldest version, the newest, and one between them. -/
theorem roundTrips_result_sample :
    ∃ back, sample.roundTrips [{ version := 1 }, { version := 16 }, { version := 3 }] = .ok back ∧
      back.root = sample.root.withBaseNames.unlabelled := by
  have hsome : (sample.roundTrips [{ version := 1 }, { version := 16 }, { version := 3 }]).toOption.isSome = true := by
    decide +kernel
  have hsizes (q : Quantity) : sample.roundTrips [{ version := 1 }, { version := 16 }, { version := 3 }] ≠
      .error (.inr (.tooLarge q)) := fun h => by
    rw [h] at hsome
    cases hsome
  obtain ⟨back, hback, -, hroot, -⟩ := roundTrips_result ⟨{ version := 16 }, _, rfl⟩ (by decide) (by decide) rfl rfl
    (by decide) (by decide) (by decide) hsizes
  exact ⟨back, hback, hroot.trans (if_pos (by decide))⟩

end BootInfo

end DeviceTree
