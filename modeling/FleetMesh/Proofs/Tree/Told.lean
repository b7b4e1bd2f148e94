/-
What a text says of a tree.

A text leaves out the probes that are out of service, and free-form content that is a
bare `null` it reads as none.  `Node.told` is the tree as its text says it: its
identifiers, names and statuses are the tree's (`fair_told`), and it is the tree itself
where no content is a bare `null` and nothing is out of service (`told_eq_self`).
-/
import FleetMesh.Proofs.Tree.Portable
import FleetMesh.Proofs.Tree.Restate

namespace FleetMesh

open Json (Value)

namespace Reading

/-- What a text says of free-form content. -/
def stated : Option Value → Option Value
  | some .null => none
  | content => content

def told (r : Reading) : Reading :=
  { r with value := stated r.value, metrics := stated r.metrics, detail := stated r.detail }

theorem stated_eq_self {content : Option Value} (h : content ≠ some .null) :
    stated content = content := by
  match content, h with
  | none, _ => rfl
  | some .null, h => exact absurd rfl h
  | some (.bool _), _ | some (.number _), _ | some (.string _), _ | some (.array _), _
  | some (.object _), _ => rfl

/-- Whether no content is a bare `null`. -/
def Stated (r : Reading) : Prop := ∀ v ∈ r.content, v ≠ .null

theorem Stated.told {r : Reading} (h : r.Stated) : r.told = r := by
  have hslot : ∀ slot : Option Value, (∀ v, slot = some v → v ∈ r.content) →
      stated slot = slot := fun slot hslot =>
    stated_eq_self fun hnull => h .null (hslot .null hnull) rfl
  rw [Reading.told, hslot r.value fun v hv => mem_content.mpr (Or.inl hv),
    hslot r.metrics fun v hv => mem_content.mpr (Or.inr (Or.inl hv)),
    hslot r.detail fun v hv => mem_content.mpr (Or.inr (Or.inr hv))]

end Reading

namespace Host

/-- The host with every reading in other words. -/
def mapReadings (f : Reading → Reading) (h : Host) : Host :=
  { h with readings := Keyed.mapValues f h.readings }

theorem rated_mapReadings {f : Reading → Reading} (hf : ∀ r, (f r).status = r.status) {h : Host}
    (hrated : h.rate = h) : (h.mapReadings f).rate = h.mapReadings f := by
  have hstatuses : (Keyed.mapValues f h.readings).map (fun e => e.2.status) =
      h.readings.map (fun e => e.2.status) := by
    rw [Keyed.mapValues, List.map_map]
    exact List.map_congr_left fun e _ => hf e.2
  rw [rate, mapReadings, hstatuses]
  exact congrArg (mapReadings f) hrated

theorem mapReadings_eq_self {f : Reading → Reading} {h : Host}
    (hf : ∀ e ∈ h.readings, f e.2 = e.2) : h.mapReadings f = h := by
  rw [mapReadings, Keyed.mapValues_eq_self_iff.mpr hf]

def told (h : Host) : Host := h.mapReadings Reading.told

end Host

def NodeInfo.told (info : NodeInfo) : NodeInfo :=
  { info with localHost := info.localHost.told, disabled := [] }

namespace Node

def told (n : Node) : Node := n.restate NodeInfo.told

theorem told_eq (n : Node) : n.told = ⟨n.toNodeInfo.told, Keyed.mapValues told n.children⟩ :=
  restate_eq _ n

theorem fair_told : Fair NodeInfo.told where
  uuid _ := rfl
  named _ h := h
  rated _ h := Host.rated_mapReadings (f := Reading.told) (fun _ => rfl) h
  localStatus _ := rfl
  globalStatus _ _ := rfl

/-- Whether a text says all that the node's readings hold. -/
def Stated (n : Node) : Prop := ∀ e ∈ n.localHost.readings, e.2.Stated

theorem told_eq_self {n : Node} (hstated : n.Everywhere Stated)
    (henabled : n.Everywhere (fun m => m.disabled = [])) : n.told = n := by
  refine restate_eq_self (P := fun m => m.Stated ∧ m.disabled = []) (fun m hm => ?_)
    fun m hm => ⟨hstated m hm, henabled m hm⟩
  obtain ⟨hm, hnothing⟩ := hm
  rw [NodeInfo.told, Host.told,
    Host.mapReadings_eq_self fun e he => Reading.Stated.told (hm e he), ← hnothing]

/-- What is out of service on the topmost node is not told. -/
theorem told_disabled (n : Node) (disabled : List (String × Unit)) :
    told { n with disabled := disabled } = n.told := by
  rw [told_eq, told_eq]
  rfl

theorem told_uuid (n : Node) : n.told.uuid = n.uuid := by
  rw [told_eq]
  rfl

end Node
end FleetMesh
