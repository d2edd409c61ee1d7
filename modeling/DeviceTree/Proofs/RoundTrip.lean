import DeviceTree.Proofs.Node
import DeviceTree.Proofs.Rereading

/-!
# The round trip by names

From version 16 on, nodes are stored by their names. Written trees then come back without labels and with their
paths worked out again (`readBack_of_names`), unless they have too many levels (`readBack_too_deep`).

* `round_trip_by_names`: the same for whole blobs.
-/

namespace DeviceTree

namespace BlockReader

open Structure

variable {r : BlockReader}

theorem nodeStoredAs_of_name (hr : r.features = Version.v16.features) (parent : Option String) (id : String) :
    r.nodeStoredAs parent id = some { name := id, path := Path.join (parent.getD "/") id } := by
  unfold nodeStoredAs
  rw [hr]
  rfl

theorem storedProperties_v16 (n : Node) : storedProperties Version.v16.features n = n.properties := by
  have hname : storesName Version.v16.features n = false := rfl
  rw [storedProperties, hname, if_neg Bool.false_ne_true, List.append_nil]

/-- Where nodes are stored by their names, a tree comes back without labels, with its paths worked out again. -/
theorem readBack_of_names (hr : r.features = Version.v16.features) (n : Node) :
    ∀ (depth : Nat) (parent : Option String), depth + n.height ≤ maxNesting →
      r.readBack n depth parent = .ok (n.unlabelled.placedUnder (parent.getD "/")) := by
  induction n using Node.induction with
  | step n ih =>
    intro depth parent hdepth
    obtain ⟨k, hk⟩ : ∃ k, n.height = k + 1 := ⟨_, Node.height_eq n⟩
    have hchildren := Node.height_le_iff.1 (Nat.le_of_eq hk)
    have hids : storedId r.features n = n.name := by rw [hr]; rfl
    rw [readBack_eq, if_neg (by omega), nodeStoredAs_of_name hr, hids, hr, storedProperties_v16]
    have hbelow : (n.children.mapM fun child => r.readBack child (depth + 1)
        (some (Path.join (parent.getD "/") n.name))) =
          .ok (n.children.map fun c => c.unlabelled.placedUnder (Path.join (parent.getD "/") n.name)) :=
      mapM_eq_ok fun c hc => ih c hc (depth + 1) _ (by have := hchildren c hc; omega)
    dsimp only
    rw [hbelow, Node.unlabelled_eq, Node.placedUnder_eq, List.map_map]
    rfl

/-- With too many levels, it does not. -/
theorem readBack_too_deep (hr : r.features = Version.v16.features) (n : Node) :
    ∀ (depth : Nat) (parent : Option String), maxNesting < depth + n.height →
      r.readBack n depth parent = .error .nestingTooDeep := by
  induction n using Node.induction with
  | step n ih =>
    intro depth parent hdepth
    rw [readBack_eq, nodeStoredAs_of_name hr]
    split
    · rfl
    · rename_i hopen
      obtain ⟨k, hk⟩ : ∃ k, n.height = k + 1 := ⟨_, Node.height_eq n⟩
      have hdeep : ∃ c ∈ n.children, maxNesting < depth + 1 + c.height := by
        refine Decidable.by_contra fun h => ?_
        have hle : n.height ≤ maxNesting - depth - 1 + 1 := by
          refine Node.height_le_iff.2 fun c hc => ?_
          have hnot : ¬maxNesting < depth + 1 + c.height := fun hlt => h ⟨c, hc, hlt⟩
          omega
        omega
      obtain ⟨c, hc, hlevel⟩ := hdeep
      let path := Path.join (parent.getD "/") (storedId r.features n)
      have heach : ∀ c ∈ n.children,
          r.readBack c (depth + 1) (some path) = .ok (c.unlabelled.placedUnder path) ∨
            ∃ e, e = Fault.nestingTooDeep ∧ r.readBack c (depth + 1) (some path) = .error e := by
        intro c hc
        by_cases hlevel : depth + 1 + c.height ≤ maxNesting
        · exact .inl (readBack_of_names hr c (depth + 1) _ hlevel)
        · exact .inr ⟨_, rfl, ih c hc _ _ (Nat.not_le.1 hlevel)⟩
      obtain ⟨_, rfl, hbelow⟩ := mapM_eq_error heach ⟨c, hc, _, ih c hc _ _ hlevel⟩
      dsimp only
      rw [hbelow]
      rfl

end BlockReader

namespace BootInfo

/-- Version 16: a blob that is written is read as the boot information it was written from, without labels and with
every path worked out again from the top, unless there are more levels of nodes than may be open at once. -/
theorem round_trip_by_names {info : BootInfo} {s : Settings} {b : Bytes} (hs : s.version = 16)
    (hb : (info.toBlob s).result = .ok b) :
    (info.root.height ≤ maxNesting →
      (ofBlob b).result = .ok { info with root := info.root.unlabelled.placedUnder "/" }) ∧
    (maxNesting < info.root.height → ∃ offset, (ofBlob b).result = .error ⟨.nestingTooDeep, offset⟩) := by
  obtain ⟨v, hv, hwritable, hfit, rfl⟩ := toBlob_eq_ok_iff.1 hb
  obtain rfl : v = .v16 := by
    rw [hs] at hv
    exact (Option.some.inj hv).symm
  obtain ⟨r, hr, hread⟩ := ofBlob_blobBytes hwritable hfit s.blobCpuid fun n hn => (hwritable.names n hn).1
  refine ⟨fun hheight => ?_, fun hheight => ?_⟩
  · rw [BlockReader.readBack_of_names hr _ 0 none (by omega)] at hread
    exact faultOnly_eq_ok_iff.1 hread
  · rw [BlockReader.readBack_too_deep hr _ 0 none (by omega)] at hread
    exact faultOnly_eq_error_iff.1 hread

/-- A root and one node in it, with labels, a property and a reservation. -/
def sample : BootInfo where
  root := {
    name := "", path := "/", label := some "top"
    children := [{ name := "cpus", path := "/cpus", properties := [⟨"reg", [1, 2], some "reg0"⟩] }] }
  reservations := [⟨0x1000, 4⟩]

theorem round_trip_by_names_sample :
    ∃ b, (sample.toBlob { version := 16 }).result = .ok b ∧
      (ofBlob b).result = .ok { sample with root := sample.root.unlabelled } := by
  obtain ⟨b, hb⟩ : ∃ b, (sample.toBlob { version := 16 }).result = .ok b := ⟨_, rfl⟩
  have hroot : sample.root.unlabelled.placedUnder "/" = sample.root.unlabelled := by decide
  have hback := (round_trip_by_names rfl hb).1 (by decide)
  rw [hroot] at hback
  exact ⟨b, hb, hback⟩

end BootInfo

end DeviceTree
