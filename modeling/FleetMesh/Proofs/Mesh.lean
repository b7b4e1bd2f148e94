/-
What holds of the tree after any changes.

A mesh is reachable if it was made for a new machine and then changed in any way.
Its tree is coherent (`Reachable.coherent`), and from that follow the two facts
that readers of the tree rely on: an identifier says which node is meant
(`reachable_identifiers`), and every status is that of what is below it
(`reachable_statuses`).
-/
import FleetMesh.Proofs.Tree.Coherent
import Mathlib.Data.List.Nodup

namespace FleetMesh

/-! ## One position, one node -/

namespace Node

/-- Identifiers at different positions differ, and so they do in the list of all
nodes. -/
theorem Distinct.nodup {n : Node} (hn : n.InOrder) (hd : n.Distinct) :
    (n.subtree.map (fun m => m.uuid)).Nodup := by
  induction n using induct with
  | step n ih =>
    have hposition : ∀ e ∈ n.children, ∀ uuid ∈ e.2.subtree.map (fun m => m.uuid),
        ∃ path, uuid? (e.1 :: path) n = some uuid := by
      intro e he uuid hu
      obtain ⟨m, hm, rfl⟩ := List.mem_map.mp hu
      obtain ⟨path, hpath⟩ := (mem_subtree_iff ((everywhere_iff.mp hn).2 e he)).mp hm
      refine ⟨path, uuid?_eq_some.mpr ⟨m, at?_cons_eq_some.mpr ⟨e.2, ?_, hpath⟩, rfl⟩⟩
      exact Keyed.find?_of_mem hn.ordered he
    have hchild : ∀ e ∈ n.children, e.2.Distinct := by
      intro e he p q uuid hp hq
      have hfind := Keyed.find?_of_mem hn.ordered he
      have hcons : ∀ path, uuid? (e.1 :: path) n = uuid? path e.2 := by
        intro path
        rw [uuid?_cons, hfind]
        rfl
      have hpath := hd (e.1 :: p) (e.1 :: q) uuid ((hcons p).trans hp) ((hcons q).trans hq)
      exact (List.cons.inj hpath).2
    rw [subtree_eq, List.map_cons, List.map_flatMap, List.nodup_cons, List.nodup_flatMap]
    refine ⟨?_, fun e he => ih e he ((everywhere_iff.mp hn).2 e he) (hchild e he), ?_⟩
    · intro hroot
      obtain ⟨e, he, hu⟩ := List.mem_flatMap.mp hroot
      obtain ⟨path, hpath⟩ := hposition e he _ hu
      exact absurd (hd [] (e.1 :: path) n.uuid rfl hpath) (List.cons_ne_nil _ _).symm
    · refine List.Pairwise.imp_of_mem (fun {e d} he hd' hlt => ?_) hn.ordered
      intro uuid hue hud
      obtain ⟨p, hp⟩ := hposition e he uuid hue
      obtain ⟨q, hq⟩ := hposition d hd' uuid hud
      have hkey := (List.cons.inj (hd _ _ uuid hp hq)).1
      exact String.lt_irrefl d.1 (hkey ▸ hlt)

end Node

namespace Mesh

/-- The meshes that any changes, in any order and under any clock, lead to. -/
inductive Reachable : Mesh → Prop
  | new (uuid hostname group : String) (now timeout : Int) :
    Reachable (Mesh.new (Node.new uuid hostname group now) timeout)
  | run {m : Mesh} (h : Reachable m) (c : Change) : Reachable (m.run c)

theorem publish_root (m : Mesh) (events : List Event) : (m.publish events).root = m.root := by
  induction events generalizing m with
  | nil => rfl
  | cons e events ih => exact ih (m.notify e)

theorem publish_timeout (m : Mesh) (events : List Event) :
    (m.publish events).timeout = m.timeout := by
  induction events generalizing m with
  | nil => rfl
  | cons e events ih => exact ih (m.notify e)

theorem run_root (m : Mesh) (c : Change) : (m.run c).root = (c.apply m.timeout m.root).1 :=
  publish_root _ _

theorem run_timeout (m : Mesh) (c : Change) : (m.run c).timeout = m.timeout :=
  publish_timeout _ _

/-- A change that does and says nothing. -/
theorem run_of_idle {m : Mesh} {c : Change} (h : c.apply m.timeout m.root = (m.root, [])) :
    m.run c = m := by
  rw [run, h]
  rfl

theorem coherent_run {m : Mesh} (h : m.root.Coherent) (c : Change) : (m.run c).root.Coherent := by
  rw [run_root]
  exact Node.coherent_apply h _ c

theorem Reachable.coherent {m : Mesh} (h : m.Reachable) : m.root.Coherent := by
  induction h with
  | new uuid hostname group now timeout => exact Node.coherent_new uuid hostname group now
  | run _ c ih => exact coherent_run ih c

/-- No identifier occurs twice in a reachable tree, so the root's does not occur
below it; and every node stands under its own identifier, which is not empty. -/
theorem reachable_identifiers {m : Mesh} (h : m.Reachable) :
    (m.root.subtree.map (fun n => n.uuid)).Nodup ∧
      (∀ e ∈ m.root.children, ∀ n ∈ e.2.subtree, n.uuid ≠ m.root.uuid) ∧
      ∀ n ∈ m.root.subtree, Keyed.Ordered n.children ∧
        ∀ e ∈ n.children, e.1 = e.2.uuid ∧ e.2.uuid ≠ "" := by
  have hc := h.coherent
  have hnodup := hc.distinct.nodup hc.sound.inOrder
  refine ⟨hnodup, ?_, fun n hn => ⟨(hc.sound n hn).ordered, (hc.sound n hn).filed⟩⟩
  intro e he n hn hid
  rw [Node.subtree_eq, List.map_cons] at hnodup
  refine (List.nodup_cons.mp hnodup).1 (List.mem_map.mpr ⟨n, ?_, hid⟩)
  exact List.mem_flatMap.mpr ⟨e, he, hn⟩

/-- A machine `b` reports and goes down, and then `a` reports the root, `b`, and a
machine that `b` has too. -/
def crossedRun : Mesh :=
  ((((Mesh.new (Node.new "r" "root" "" 0) 60).run
    (.merge (Node.machine "b" [("c", Node.machine "c" [])]) 1)).run
    (.submit (Reading.plain "disk" Status.warning 1 "" (.ofUnix 2)))).run
    (.sweep 100)).run
    (.merge Node.crossedSnapshot 120)

theorem crossedRun_reachable : crossedRun.Reachable :=
  .run (.run (.run (.run (.new "r" "root" "" 0 60) _) _) _) _

theorem crossedRun_identifiers :
    crossedRun.root.subtree.map (fun n => n.uuid) = ["r", "a", "b", "c"] ∧
      (crossedRun.root.subtree.map (fun n => n.uuid)).Nodup ∧
      (∀ e ∈ crossedRun.root.children, ∀ n ∈ e.2.subtree, n.uuid ≠ crossedRun.root.uuid) ∧
      ∀ n ∈ crossedRun.root.subtree, Keyed.Ordered n.children ∧
        ∀ e ∈ n.children, e.1 = e.2.uuid ∧ e.2.uuid ≠ "" :=
  ⟨by decide, reachable_identifiers crossedRun_reachable⟩

/-- Every host of a reachable tree has the status of its worst reading, and every
node the worst of its own status and of its children. -/
theorem reachable_statuses {m : Mesh} (h : m.Reachable) :
    ∀ n ∈ m.root.subtree,
      n.localHost.status
          = (n.localHost.readings.map (fun e => e.2.status)).max?.getD Status.ok ∧
        ((if n.isAlive then n.localHost.status else max n.localHost.status Status.down) ::
          n.children.map (fun e => e.2.globalStatus)).max? = some n.globalStatus := by
  have hc := h.coherent
  intro n hn
  constructor
  · have hrated := congrArg Host.status (hc.sound n hn).rated
    rw [← Host.worst_eq_max?]
    exact hrated.symm
  · obtain ⟨path, hpath⟩ := (Node.mem_subtree_iff hc.sound.inOrder).mp hn
    exact Node.globalStatus_of_rollup (Node.rollup_at? hc.rolled hpath)

theorem crossedRun_statuses :
    crossedRun.root.subtree.map (fun n => n.globalStatus) =
        [Status.down, Status.ok, Status.down, Status.ok] ∧
      ∀ n ∈ crossedRun.root.subtree,
        n.localHost.status
          = (n.localHost.readings.map (fun e => e.2.status)).max?.getD Status.ok ∧
        ((if n.isAlive then n.localHost.status else max n.localHost.status Status.down) ::
          n.children.map (fun e => e.2.globalStatus)).max? = some n.globalStatus :=
  ⟨by decide, reachable_statuses crossedRun_reachable⟩

end Mesh
end FleetMesh
