/-
Trees in other words.

`restate f` puts the record of every node in other words and leaves the shape of the
tree as it is.  Words are `Fair` if they say the same of all that a tree goes by: the
identifier, the name, and the statuses.  Rolling up takes no notice of them
(`Fair.rollup_restate`), and what is sound and named stays so.
-/
import FleetMesh.Proofs.Tree.Normal

namespace FleetMesh
namespace Node

mutual

/-- The tree with every record put in other words. -/
def restate (f : NodeInfo → NodeInfo) : Node → Node
  | ⟨info, children⟩ => ⟨f info, restateAll f children⟩

def restateAll (f : NodeInfo → NodeInfo) : List (String × Node) → List (String × Node)
  | [] => []
  | (key, child) :: rest => (key, child.restate f) :: restateAll f rest

end

variable {n : Node} {f : NodeInfo → NodeInfo}

theorem restate_eq (f : NodeInfo → NodeInfo) (n : Node) :
    n.restate f = ⟨f n.toNodeInfo, Keyed.mapValues (restate f) n.children⟩ := by
  have hall : ∀ children, restateAll f children = Keyed.mapValues (restate f) children := by
    intro children
    induction children with
    | nil => rfl
    | cons e rest ih =>
      obtain ⟨key, child⟩ := e
      rw [restateAll, ih]
      rfl
  obtain ⟨info, children⟩ := n
  rw [restate, hall]

theorem restate_eq_self {P : Node → Prop} (hP : ∀ m, P m → f m.toNodeInfo = m.toNodeInfo)
    (h : n.Everywhere P) : n.restate f = n := by
  induction n using induct with
  | step n ih =>
    obtain ⟨hroot, hbelow⟩ := everywhere_iff.mp h
    have hchildren : Keyed.mapValues (restate f) n.children = n.children :=
      Keyed.mapValues_eq_self_iff.mpr fun e he => ih e he (hbelow e he)
    rw [restate_eq, hP n hroot, hchildren]
    cases n
    rfl

theorem at?_restate (f : NodeInfo → NodeInfo) (p : List String) (n : Node) :
    at? p (n.restate f) = (at? p n).map (restate f) := by
  induction p generalizing n with
  | nil => rfl
  | cons key p ih =>
    rw [at?_cons, at?_cons, restate_eq, Keyed.find?_mapValues]
    cases Keyed.find? key n.children with
    | none => rfl
    | some c => exact ih c

/-- What words leave true of one node they leave true everywhere. -/
theorem Everywhere.restate {P Q : Node → Prop}
    (hP : ∀ m, P m → Q ⟨f m.toNodeInfo, Keyed.mapValues (Node.restate f) m.children⟩)
    (h : n.Everywhere P) : (n.restate f).Everywhere Q := by
  induction n using induct with
  | step n ih =>
    obtain ⟨hroot, hbelow⟩ := everywhere_iff.mp h
    rw [restate_eq]
    refine everywhere_iff.mpr ⟨hP n hroot, fun e he => ?_⟩
    obtain ⟨d, hd, rfl⟩ := List.mem_map.mp he
    exact ih d hd (hbelow d hd)

theorem inOrder_restate (f : NodeInfo → NodeInfo) (h : n.InOrder) : (n.restate f).InOrder :=
  Everywhere.restate (fun _ hm => Keyed.ordered_mapValues.mpr hm) h

/-! ## Fair words -/

/-- Words that say the same of what a tree goes by. -/
structure Fair (f : NodeInfo → NodeInfo) : Prop where
  uuid : ∀ info, (f info).uuid = info.uuid
  named : ∀ info, (info.hostname = "" → info.localHost.name = "") →
    (f info).hostname = "" → (f info).localHost.name = ""
  rated : ∀ info, info.localHost.rate = info.localHost →
    (f info).localHost.rate = (f info).localHost
  localStatus : ∀ info, Node.localStatus (f info) = Node.localStatus info
  globalStatus : ∀ info status,
    f { info with globalStatus := status } = { f info with globalStatus := status }

namespace Fair

theorem globalStatus_restate (hf : Fair f) (n : Node) :
    (n.restate f).globalStatus = n.globalStatus := by
  rw [restate_eq]
  exact congrArg (fun info => info.globalStatus) (hf.globalStatus n.toNodeInfo n.globalStatus)

theorem worst_restate (hf : Fair f) (status : Int) (children : List (String × Node)) :
    worst status (Keyed.mapValues (restate f) children) = worst status children := by
  refine Option.some.inj ?_
  rw [← worst_eq_max?, ← worst_eq_max?, Keyed.mapValues, List.map_map]
  exact congrArg (fun l => (status :: l).max?)
    (List.map_congr_left fun e _ => hf.globalStatus_restate e.2)

theorem rollup_restate (hf : Fair f) (n : Node) :
    (n.restate f).rollup = n.rollup.restate f := by
  induction n using induct with
  | step n ih =>
    have hchildren : Keyed.mapValues rollup (Keyed.mapValues (restate f) n.children) =
        Keyed.mapValues (restate f) (Keyed.mapValues rollup n.children) :=
      Keyed.mapValues_swap ih
    rw [rollup_eq, restate_eq f n.rollup, rollup_eq n, restate_eq]
    dsimp only [rate]
    rw [hchildren, hf.worst_restate, hf.localStatus]
    exact congrArg (fun info => (⟨info, _⟩ : Node)) (hf.globalStatus n.toNodeInfo _).symm

theorem sound_restate (hf : Fair f) (h : n.Everywhere Sound) : (n.restate f).Everywhere Sound := by
  refine Everywhere.restate (fun m hm => ⟨Keyed.ordered_mapValues.mpr hm.ordered,
    fun e he => ?_, hf.rated m.toNodeInfo hm.rated⟩) h
  obtain ⟨d, hd, rfl⟩ := List.mem_map.mp he
  have huuid : (d.2.restate f).uuid = d.2.uuid := by
    rw [restate_eq]
    exact hf.uuid d.2.toNodeInfo
  rw [huuid]
  exact hm.filed d hd

theorem named_restate (hf : Fair f) (h : n.Everywhere Named) : (n.restate f).Everywhere Named :=
  Everywhere.restate (fun m hm => hf.named m.toNodeInfo hm) h

end Fair

end Node
end FleetMesh
