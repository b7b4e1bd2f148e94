/-
A machine that comes back after an outage.

The snapshot that it comes back with is held down until the next sweep, so the two
snapshots are compared while both are down, and a comparison of two such snapshots
tells no reading that came or went (`diffReadings_of_down`).  The sweep tells that
the machine is up and nothing of its readings.  So across an outage only the
readings that both snapshots have are told (`told_of_comeback`): those that came
or went meanwhile are lost (`outage_untold`).
-/
import FleetMesh.Proofs.Liveness.Run

namespace FleetMesh

open Event (turns)

namespace Node

variable {n : Node}

/-- The changes of the readings that are in both snapshots. -/
def changedReadings (old new : NodeInfo) : List Event :=
  old.localHost.readings.flatMap fun e =>
    match new.localHost.reading? e.1 with
    | some latest => readingChange new e.1 e.2 latest
    | none => []

theorem mem_changedReadings {old new : NodeInfo} {event : Event} :
    event ∈ changedReadings old new ↔
      ∃ e ∈ old.localHost.readings, ∃ latest, new.localHost.reading? e.1 = some latest ∧
        latest.status ≠ e.2.status ∧
        event = .statusChanged ⟨new.hostname, some e.1, e.2.status, latest.status, latest.message,
          new.localHost.alarming⟩ := by
  rw [changedReadings, List.mem_flatMap]
  refine exists_congr fun e => and_congr_right fun _ => ?_
  cases new.localHost.reading? e.1 with
  | none => simp
  | some latest => by_cases hsame : latest.status = e.2.status <;> simp [readingChange, hsame]

theorem diffReadings_of_down {old new : NodeInfo} (h : new.isAlive = false) :
    diffReadings old new = changedReadings old new := by
  have hnewer : diffNewer old new = [] := by simp [diffNewer, h]
  rw [diffReadings, hnewer, List.append_nil, diffOlder, changedReadings]
  refine List.flatMap_congr fun e _ => ?_
  obtain ⟨name, r⟩ := e
  dsimp only
  cases new.localHost.reading? name with
  | none => simp [h]
  | some latest => rfl

/-- The events between two snapshots of a machine that is down in both. -/
theorem diff_of_down {old new : Node} (hold : old.isAlive = false) (hnew : new.isAlive = false) :
    ∃ rest, diff old new = changedReadings old.toNodeInfo new.toNodeInfo ++ rest ∧
      ∀ event ∈ rest, (∃ c, event = .statusChanged c ∧ c.probe = none) ∨
        ∃ e ∈ old.children, ∃ latest, Keyed.find? e.1 new.children = some latest ∧
          event ∈ diff e.2 latest := by
  have hdiff : diff old new =
      if (changedReadings old.toNodeInfo new.toNodeInfo
          ++ diffChildren old.children new.children).isEmpty then
        diffStatus old.toNodeInfo new.toNodeInfo
      else changedReadings old.toNodeInfo new.toNodeInfo
          ++ diffChildren old.children new.children := by
    rw [diff_eq, diffReadings_of_down hnew, hold, hnew]
    rfl
  rw [hdiff]
  split
  · rename_i hempty
    rw [List.isEmpty_iff, List.append_eq_nil_iff] at hempty
    refine ⟨diffStatus old.toNodeInfo new.toNodeInfo, by rw [hempty.1, List.nil_append], ?_⟩
    intro event hevent
    obtain ⟨-, hevent⟩ := List.mem_ite_nil_left.mp hevent
    obtain rfl := List.mem_singleton.mp hevent
    exact Or.inl ⟨_, rfl, rfl⟩
  · exact ⟨diffChildren old.children new.children, rfl,
      fun event hevent => Or.inr (mem_diffChildren.mp hevent)⟩

theorem changedReadings_congr {old new new' : NodeInfo} (hname : new.hostname = new'.hostname)
    (hhost : new.localHost = new'.localHost) :
    changedReadings old new = changedReadings old new' := by
  simp only [changedReadings, readingChange, hname, hhost]

/-- A sweep says of machines that they are up or down, and nothing else. -/
theorem turn_of_sweep {now timeout : Int} {event : Event}
    (h : event ∈ (n.sweep now timeout).2) : ∃ uuid up, event.turn? uuid = some up := by
  rw [sweep_events, List.mem_flatMap] at h
  obtain ⟨e, _, hevent⟩ := h
  have hverdict := judge_verdict (Clock.sub now timeout) e.2
  generalize e.2.judge (Clock.sub now timeout) = r at hverdict hevent
  cases hverdict with
  | stays _ => exact absurd hevent List.not_mem_nil
  | falls _ _ =>
    obtain rfl := List.mem_singleton.mp hevent
    exact ⟨e.2.uuid, false, if_pos rfl⟩
  | rises _ _ =>
    obtain rfl := List.mem_singleton.mp hevent
    exact ⟨e.2.uuid, true, if_pos rfl⟩

end Node

namespace Mesh

theorem events_single (m : Mesh) (c : Change) :
    m.events [c] = (c.apply m.timeout m.root).2 := List.append_nil _

/-- What is told of a machine that is down, reports, and is found fresh by the next
sweep: the readings that both snapshots have with different statuses, each once and
nothing else of its own readings, and that it is up, once. -/
theorem told_of_comeback {m : Mesh} (h : m.Reachable) {incoming old : Node} {now later : Int}
    (hold : Keyed.find? incoming.uuid m.root.children = some old) (hdown : old.isAlive = false)
    (hfresh : Clock.sub later m.timeout ≤ now) :
    (∃ stored rest,
      Keyed.find? incoming.uuid (m.run (.merge incoming now)).root.children = some stored ∧
        m.events [.merge incoming now] =
          Node.changedReadings old.toNodeInfo incoming.normalize.toNodeInfo ++ rest ∧
        ∀ event ∈ rest, (∃ c, event = .statusChanged c ∧ c.probe = none) ∨
          ∃ e ∈ old.children, ∃ latest, Keyed.find? e.1 stored.children = some latest ∧
            event ∈ Node.diff e.2 latest) ∧
      (∀ event ∈ Node.changedReadings old.toNodeInfo incoming.normalize.toNodeInfo,
        ∃ c, event = .statusChanged c) ∧
      turns incoming.uuid (m.events [.merge incoming now]) = [] ∧
      turns incoming.uuid ((m.run (.merge incoming now)).events [.sweep later]) = [true] ∧
      ∀ event ∈ (m.run (.merge incoming now)).events [.sweep later],
        ∃ uuid up, event.turn? uuid = some up := by
  have hc := h.coherent
  have hbefore : m.root.alive? incoming.uuid = some false := by
    rw [Node.alive?, hold, ← hdown]
    rfl
  have hne := Node.child_ne_root hc hbefore
  have hid := (hc.filed hold).2
  have hroot : (m.run (.merge incoming now)).root = Node.merged m.root incoming now := by
    rw [run_root, Change.apply, Node.merge_changed hid hne now]
  have hmerged := Node.merged_coherent hc hid hne now
  have hheld := Node.alive?_merged_of_down hc now hbefore
  have hstored := Node.own?_merged_newcomer hc.sound hne now
  have hup : ((Node.merged m.root incoming now).sweep later m.timeout).1.alive? incoming.uuid
      = some true := by
    rw [Node.alive?_sweep, hstored, Node.dated, if_pos rfl]
    exact congrArg some (decide_eq_true hfresh)
  rw [events_single, events_single, hroot, run_timeout]
  refine ⟨?_, fun event hevent => ?_, ?_, ?_, fun event hevent => Node.turn_of_sweep hevent⟩
  · rw [Node.own?_cons, Option.bind_eq_some_iff] at hstored
    obtain ⟨stored, hfind, hown⟩ := hstored
    have hdownAgain : stored.isAlive = false := by
      rw [Node.alive?, hfind] at hheld
      exact Option.some.inj hheld
    obtain ⟨rest, hdiff, hrest⟩ := Node.diff_of_down hdown hdownAgain
    refine ⟨stored, rest, hfind, ?_, hrest⟩
    rw [Node.dated, if_pos rfl] at hown
    have hinfo := Option.some.inj hown
    have hname := congrArg (fun i : NodeInfo => i.hostname) hinfo
    have hhost := congrArg (fun i : NodeInfo => i.localHost) hinfo
    have hsame : Node.changedReadings old.toNodeInfo stored.toNodeInfo =
        Node.changedReadings old.toNodeInfo incoming.normalize.toNodeInfo :=
      Node.changedReadings_congr hname hhost
    rw [← hsame, ← hdiff, Change.apply, Node.merge_changed hid hne now, hold, hfind]
    rfl
  · obtain ⟨_, _, _, _, _, hchange⟩ := Node.mem_changedReadings.mp hevent
    exact ⟨_, hchange⟩
  · have hafter : (m.root.merge incoming now).1.alive? incoming.uuid = some false := by
      rw [Node.merge_changed hid hne now]
      exact hheld
    exact Node.turns_merge hc incoming now hbefore hafter
  · exact Node.turns_sweep hmerged.sound later m.timeout hheld hup

/-- A machine with readings of these names and statuses. -/
def probed (readings : List (String × Int)) : Node :=
  { Node.machine "u" [] with
    localHost := ⟨"u", "", Status.ok,
      readings.map fun (name, status) => (name, Reading.plain name status 0 "" (.ofUnix 0))⟩ }

/-- A machine that reported two readings, and went down. -/
def outageRun : Mesh :=
  ((Mesh.new (Node.new "r" "root" "" 0) 60).run
    (.merge (probed [("load", Status.ok), ("swap", Status.ok)]) 1)).run (.sweep 100)

theorem outageRun_reachable : outageRun.Reachable :=
  .run (.run (.new "r" "root" "" 0 60) _) _

/-- The same machine without one of them, with a new one, and with the other worse. -/
def outageSnapshot : Node := probed [("disk", Status.ok), ("load", Status.warning)]

/-- Of the three changes one is told. -/
theorem outage_untold :
    outageRun.Reachable ∧ outageRun.root.alive? "u" = some false ∧
      (Keyed.find? "u" outageRun.root.children).map (fun c => Keyed.keys c.localHost.readings)
        = some ["load", "swap"] ∧
      outageSnapshot.isAlive = true ∧
      Keyed.keys outageSnapshot.localHost.readings = ["disk", "load"] ∧
      ((outageRun.run (.merge outageSnapshot 110)).run (.sweep 120)).root.alive? "u" = some true ∧
      outageRun.events [.merge outageSnapshot 110, .sweep 120] =
        [.statusChanged ⟨"u", some "load", Status.ok, Status.warning, "", ["load"]⟩,
          .nodeUp "u" "u"] :=
  ⟨outageRun_reachable, by decide, by decide, by decide, by decide, by decide, rfl⟩

theorem outage_told :
    ∃ old, Keyed.find? "u" outageRun.root.children = some old ∧ old.isAlive = false ∧
      (∃ stored rest,
        Keyed.find? "u" (outageRun.run (.merge outageSnapshot 110)).root.children = some stored ∧
          outageRun.events [.merge outageSnapshot 110] =
            Node.changedReadings old.toNodeInfo outageSnapshot.normalize.toNodeInfo ++ rest ∧
          ∀ event ∈ rest, (∃ c, event = .statusChanged c ∧ c.probe = none) ∨
            ∃ e ∈ old.children, ∃ latest, Keyed.find? e.1 stored.children = some latest ∧
              event ∈ Node.diff e.2 latest) ∧
      turns "u" ((outageRun.run (.merge outageSnapshot 110)).events [.sweep 120]) = [true] := by
  have hdown : outageRun.root.alive? "u" = some false := by decide
  have hfresh : Clock.sub 120 outageRun.timeout ≤ 110 := by decide
  obtain ⟨old, hold, halive⟩ := Option.map_eq_some_iff.mp hdown
  have hsame : Keyed.find? outageSnapshot.uuid outageRun.root.children = some old := hold
  have htold := told_of_comeback outageRun_reachable hsame halive hfresh
  exact ⟨old, hold, halive, htold.1, htold.2.2.2.1⟩

end Mesh
end FleetMesh
