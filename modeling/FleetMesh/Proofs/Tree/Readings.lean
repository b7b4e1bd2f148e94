/-
What is only taken along.

A host's readings are a table, and a snapshot that comes from another machine
states it like any other.  Nothing that is done to a tree touches the table of a
node below the root: `normalize` sets the status beside it, and what stores or
removes nodes takes it along.  The same goes for the date of a node and for the
probes out of service on it.  A property of these is `Steady`, and holds everywhere
in a tree that is normalized or cut if it did before (`Everywhere.normalize`,
`Everywhere.truncate`).
-/
import FleetMesh.Proofs.Tree.Normal

namespace FleetMesh
namespace Node

/-- The same machine with the same readings, date and probes out of service. -/
structure Restated (m' m : Node) : Prop where
  uuid : m'.uuid = m.uuid
  readings : m'.localHost.readings = m.localHost.readings
  lastUpdate : m'.lastUpdate = m.lastUpdate
  disabled : m'.disabled = m.disabled

theorem restated_of_own {m' m : Node} (h : m'.toNodeInfo.own = m.toNodeInfo.own) :
    Restated m' m where
  uuid := congrArg (fun info => info.uuid) h
  readings := congrArg (fun info => info.localHost.readings) h
  lastUpdate := congrArg (fun info => info.lastUpdate) h
  disabled := congrArg (fun info => info.disabled) h

def Steady (P : Node → Prop) : Prop := ∀ m' m : Node, Restated m' m → P m → P m'

theorem Steady.stable {P : Node → Prop} (hP : Steady P) : Stable P :=
  fun m' m h => hP m' m (restated_of_own h.own)

theorem Everywhere.normalize {P : Node → Prop} (hP : Steady P) {n : Node} (h : n.Everywhere P) :
    n.normalize.Everywhere P := by
  induction n using induct with
  | step n ih =>
    obtain ⟨hn, hc⟩ := everywhere_iff.mp h
    rw [normalize_eq]
    refine Everywhere.rollup hP.stable (everywhere_iff.mpr ⟨?_, fun e he => ?_⟩)
    · exact hP _ n ⟨rfl, rfl, rfl, rfl⟩ hn
    · rcases mem_normalizeAll he with he | ⟨d, hd, he⟩
      · exact absurd he List.not_mem_nil
      · rw [he]
        exact ih d hd (hc d hd)

/-! ## Cutting -/

theorem keepLevels_own (depth : Nat) (n : Node) :
    (keepLevels depth n).toNodeInfo.own = n.toNodeInfo.own := by
  cases depth <;> rfl

theorem thinner_keepLevels (depth : Nat) (n : Node) : Thinner (keepLevels depth n) n := by
  refine ⟨keepLevels_own depth n, ?_⟩
  cases depth with
  | zero => exact List.nil_sublist _
  | succ depth =>
    have hlabels : labels (keepLevels (depth + 1) n) = labels n := by
      rw [labels, keepLevels, Keyed.mapValues, List.map_map, labels]
      exact List.map_congr_left fun e _ => congrArg (Prod.mk e.1) (keepLevels_own depth e.2)
    exact hlabels ▸ List.Sublist.refl _

theorem Everywhere.keepLevels {P : Node → Prop} (hP : Stable P) (depth : Nat) {n : Node}
    (h : n.Everywhere P) : (Node.keepLevels depth n).Everywhere P := by
  induction depth generalizing n with
  | zero =>
    refine everywhere_iff.mpr ⟨?_, fun e he => absurd he List.not_mem_nil⟩
    exact hP _ n (thinner_keepLevels 0 n) (everywhere_iff.mp h).1
  | succ depth ih =>
    obtain ⟨hn, hc⟩ := everywhere_iff.mp h
    refine everywhere_iff.mpr ⟨hP _ n (thinner_keepLevels (depth + 1) n) hn, fun e he => ?_⟩
    obtain ⟨d, hd, rfl⟩ := List.mem_map.mp he
    exact ih (hc d hd)

theorem Everywhere.truncate {P : Node → Prop} (hP : Stable P) (depth : Int) {n : Node}
    (h : n.Everywhere P) : (n.truncate depth).Everywhere P := by
  rw [Node.truncate]
  split
  · exact h
  · exact (h.keepLevels hP _).rollup hP

theorem truncate_uuid (depth : Int) (n : Node) : (n.truncate depth).uuid = n.uuid := by
  rw [truncate]
  split
  · rfl
  · rw [rollup_uuid]
    exact congrArg (fun info => info.uuid) (keepLevels_own depth.toNat n)

theorem rollup_truncate {n : Node} (h : n.rollup = n) (depth : Int) :
    (n.truncate depth).rollup = n.truncate depth := by
  rw [truncate]
  split
  · exact h
  · exact rollup_rollup _

/-- What is cut below the first level has the same children, and nothing below them. -/
theorem mem_truncate_one {n : Node} {e : String × Node} (he : e ∈ (n.truncate 1).children) :
    e.2.children = [] ∧ ∃ d ∈ n.children, e.1 = d.1 := by
  rw [truncate, if_neg (by decide), rollup_children, Keyed.mapValues, List.mem_map] at he
  obtain ⟨c, hc, rfl⟩ := he
  obtain ⟨d, hd, rfl⟩ := List.mem_map.mp hc
  refine ⟨?_, d, hd, rfl⟩
  rw [rollup_children]
  rfl

/-! ## Tables in key order -/

/-- Every table of readings is in key order. -/
def Tabled (n : Node) : Prop := n.Everywhere (fun m => Keyed.Ordered m.localHost.readings)

instance (n : Node) : Decidable n.Tabled :=
  inferInstanceAs (Decidable (n.Everywhere
    (fun m => m.localHost.readings.Pairwise (fun a b => a.1 < b.1))))

theorem Tabled.root {n : Node} (h : n.Tabled) : Keyed.Ordered n.localHost.readings :=
  (everywhere_iff.mp h).1

theorem steady_tabled : Steady (fun m => Keyed.Ordered m.localHost.readings) := by
  intro m' m h hm
  show Keyed.Ordered m'.localHost.readings
  rw [h.readings]
  exact hm

theorem tabled_normalize {n : Node} (h : n.Tabled) : n.normalize.Tabled :=
  Everywhere.normalize steady_tabled h

end Node
end FleetMesh
