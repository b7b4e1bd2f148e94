/-
What a change reports is what it changed.

The events of a stored reading, of a dropped one and of a sweep are made while the
tree is changed.  A comparison of the tree before with the tree after gives the same
events in the same order (`events_eq_diff`).

Where a comparison finds nothing else it looks at the global status.  It has nothing
to say of that here: a reading of the status that it replaces leaves the status of
the host (`status_store`), and in a tree that is rolled up that of the root with it.
-/
import FleetMesh.Proofs.Liveness.Sweep
import FleetMesh.Proofs.Mesh
import FleetMesh.Proofs.Tree.Apply

namespace FleetMesh
namespace Node

variable {n : Node} {r : Reading} {name : String}

/-! ## Nodes that stay up -/

theorem diff_of_alive {old new : Node} (hold : old.isAlive = true) (hnew : new.isAlive = true)
    {events : List Event}
    (hbelow : diffReadings old.toNodeInfo new.toNodeInfo ++ diffChildren old.children new.children
      = events)
    (hstatus : events = [] → new.globalStatus = old.globalStatus) : diff old new = events := by
  rw [diff_eq, hbelow, hold, hnew]
  cases events with
  | nil => exact if_pos (hstatus rfl).symm
  | cons event events => rfl

/-- Another host at the root. -/
theorem diff_hosted (h : n.Coherent) (ht : n.Tabled) (halive : n.isAlive = true) {host : Host}
    {events : List Event}
    (hreadings : diffReadings n.toNodeInfo { n.toNodeInfo with localHost := host } = events)
    (hstatus : events = [] → host.status = n.localHost.status) :
    diff n (rollup { n with localHost := host }) = events := by
  obtain ⟨hchildren, hrolled⟩ := rollup_eq_self_iff.mp h.rolled
  have hbelow : (rollup { n with localHost := host }).children = n.children :=
    (rollup_children _).trans hchildren
  refine diff_of_alive halive ?_ ?_ fun hnil => ?_
  · rw [rollup_eq]
    exact halive
  · rw [hbelow, diffChildren_self h.sound.inOrder ht, List.append_nil, ← hreadings, rollup_eq]
    rfl
  · have hlocal : localStatus { n.toNodeInfo with localHost := host } = localStatus n.toNodeInfo := by
      rw [localStatus, localStatus, hstatus hnil]
    rw [rollup_eq, hchildren, ← hrolled, ← hlocal]
    rfl

/-! ## A stored reading -/

theorem diffOlder_store {info : NodeInfo} (h : Keyed.Ordered info.localHost.readings) (r : Reading) :
    diffOlder info { info with localHost := info.localHost.store r } =
      ((info.localHost.reading? r.name).map
        (fun old => readingChange { info with localHost := info.localHost.store r } r.name old
          r)).getD [] := by
  rw [Host.reading?, ← Keyed.flatMap_key h]
  refine List.flatMap_congr fun e he => ?_
  have hfind : (info.localHost.store r).reading? e.1 = if r.name = e.1 then some r else some e.2 := by
    rw [← Keyed.find?_of_mem h he]
    exact Keyed.find?_insert r.name e.1 r _
  dsimp only
  rw [hfind]
  by_cases hname : r.name = e.1
  · rw [if_pos hname, if_pos hname.symm, hname]
  · rw [if_neg hname, if_neg (Ne.symm hname)]
    exact if_pos rfl

theorem diffNewer_store {info : NodeInfo} (h : Keyed.Ordered info.localHost.readings)
    (halive : info.isAlive = true) (r : Reading) :
    diffNewer info { info with localHost := info.localHost.store r } =
      if Keyed.contains r.name info.localHost.readings then []
      else [.probeAdded info.hostname r] := by
  have hstored : Keyed.find? r.name (Keyed.insert r.name r info.localHost.readings) = some r :=
    (Keyed.find?_insert r.name r.name r _).trans (if_pos rfl)
  have hkey := Keyed.flatMap_key (Keyed.ordered_insert h r.name r) r.name fun s =>
    if Keyed.contains r.name info.localHost.readings then []
    else [Event.probeAdded info.hostname s]
  rw [hstored] at hkey
  refine (if_pos halive).trans (Eq.trans (List.flatMap_congr fun e he => ?_) hkey)
  by_cases hname : e.1 = r.name
  · rw [if_pos hname]
    dsimp only
    rw [hname]
  · rw [if_neg hname]
    rcases Keyed.mem_insert he with rfl | he
    · exact absurd rfl hname
    · exact if_pos (Keyed.contains_of_mem he)

theorem diffReadings_store (h : Keyed.Ordered n.localHost.readings) (halive : n.isAlive = true)
    (r : Reading) :
    diffReadings n.toNodeInfo { n.toNodeInfo with localHost := n.localHost.store r }
      = (n.submit r).2 := by
  rw [diffReadings, diffOlder_store h, diffNewer_store h halive, submit]
  dsimp only
  rw [Host.reading?, Keyed.contains]
  cases Keyed.find? r.name n.localHost.readings with
  | none => rfl
  | some old =>
    show readingChange _ r.name old r ++ [] = _
    rw [List.append_nil, readingChange]
    simp only [eq_comm]

/-- A reading of the status that it replaces leaves the status of the host. -/
theorem status_store {host : Host} (h : Keyed.Ordered host.readings) (hrated : host.rate = host)
    {old : Reading} (hold : host.reading? r.name = some old) (hstatus : old.status = r.status) :
    (host.store r).status = host.status := by
  have hsame : Keyed.mapValues Reading.status (Keyed.insert r.name r host.readings)
      = Keyed.mapValues Reading.status host.readings := by
    rw [← Keyed.insert_mapValues]
    refine Keyed.insert_of_find? ?_ ?_
    · exact Keyed.ordered_mapValues.mpr h
    · rw [Keyed.find?_mapValues, ← hstatus]
      exact congrArg (Option.map Reading.status) hold
  have hvalues : ∀ table : List (String × Reading),
      table.map (fun e => e.2.status) = (Keyed.mapValues Reading.status table).map Prod.snd := by
    intro table
    rw [Keyed.mapValues, List.map_map]
    rfl
  rw [← congrArg Host.status hrated]
  show Host.worst ((Keyed.insert r.name r host.readings).map _) = Host.worst (host.readings.map _)
  rw [hvalues, hsame, ← hvalues]

theorem submit_events (h : n.Coherent) (ht : n.Tabled) (halive : n.isAlive = true) (r : Reading) :
    (n.submit r).2 = diff n (n.submit r).1 := by
  refine (diff_hosted h ht halive (diffReadings_store ht.root halive r) fun hnil => ?_).symm
  rw [submit] at hnil
  dsimp only at hnil
  cases hold : n.localHost.reading? r.name with
  | none =>
    rw [hold] at hnil
    exact nomatch hnil
  | some old =>
    rw [hold] at hnil
    refine status_store ht.root (everywhere_iff.mp h.sound).1.rated hold ?_
    by_contra hne
    dsimp only at hnil
    rw [if_neg hne] at hnil
    exact nomatch hnil

/-! ## A dropped reading -/

theorem diffReadings_drop {info : NodeInfo} (h : Keyed.Ordered info.localHost.readings)
    (halive : info.isAlive = true) (hr : info.localHost.reading? name = some r) :
    diffReadings info { info with localHost := info.localHost.drop name }
      = [.probeRemoved info.hostname r] := by
  have hdrop : info.localHost.drop name
      = Host.rate { info.localHost with readings := Keyed.erase name info.localHost.readings } :=
    if_pos (Keyed.contains_iff.mpr ⟨r, hr⟩)
  have holder : diffOlder info { info with localHost := info.localHost.drop name }
      = [.probeRemoved info.hostname r] := by
    have hkey := Keyed.flatMap_key h name fun s => [Event.probeRemoved info.hostname s]
    rw [show Keyed.find? name info.localHost.readings = some r from hr] at hkey
    refine Eq.trans (List.flatMap_congr fun e he => ?_) hkey
    have hfind : (info.localHost.drop name).reading? e.1
        = if name = e.1 then none else some e.2 := by
      rw [hdrop, ← Keyed.find?_of_mem h he]
      exact Keyed.find?_erase h name e.1
    dsimp only
    rw [hfind]
    by_cases hname : name = e.1
    · rw [if_pos hname, if_pos hname.symm]
      exact if_pos halive
    · rw [if_neg hname, if_neg (Ne.symm hname)]
      exact if_pos rfl
  have hnewer : diffNewer info { info with localHost := info.localHost.drop name } = [] := by
    rw [hdrop]
    refine (if_pos halive).trans (List.flatMap_eq_nil_iff.mpr fun e he => ?_)
    exact if_pos (Keyed.contains_of_mem (Keyed.mem_of_mem_erase he))
  rw [diffReadings, holder, hnewer]
  rfl

theorem dropReading_events (h : n.Coherent) (ht : n.Tabled) (halive : n.isAlive = true)
    (name : String) : (n.dropReading name).2.toList = diff n (n.dropReading name).1 := by
  rw [dropReading]
  cases hr : n.localHost.reading? name with
  | none => exact (diff_self h.sound.inOrder ht).symm
  | some r =>
    exact (diff_hosted h ht halive (diffReadings_drop ht.root halive hr)
      fun hnil => absurd hnil (List.cons_ne_nil _ _)).symm

/-! ## A sweep -/

/-- A rollup finds a judged child as it is. -/
theorem Verdict.rolled {deadline : Int} {c : Node} {judged : Node × List Event}
    (h : Verdict deadline c judged) (hc : c.rollup = c) : judged.1.rollup = judged.1 := by
  cases h with
  | stays => exact hc
  | falls => exact rollup_rollup _
  | rises => exact rollup_rollup _

theorem Verdict.events {deadline : Int} {c : Node} {judged : Node × List Event}
    (h : Verdict deadline c judged) (hn : c.InOrder) (ht : c.Tabled) (hc : c.rollup = c) :
    diff c judged.1 = judged.2 := by
  obtain ⟨hchildren, -⟩ := rollup_eq_self_iff.mp hc
  cases h with
  | stays => exact diff_self hn ht
  | falls halive =>
    rw [diff_eq, rollup_eq, halive]
    rfl
  | rises halive =>
    have hreadings : diffReadings c.toNodeInfo (rollup { c with isAlive := true }).toNodeInfo
        = [] := by
      rw [rollup_eq]
      exact diffReadings_of_same ht.root rfl
    have hbelow : diffChildren c.children (rollup { c with isAlive := true }).children = [] := by
      rw [rollup_children, hchildren]
      exact diffChildren_self hn ht
    show diff c (rollup { c with isAlive := true }) = _
    rw [diff_eq, hreadings, hbelow, rollup_eq, halive]
    rfl

theorem sweep_differences (h : n.Coherent) (ht : n.Tabled) (halive : n.isAlive = true)
    (now timeout : Int) : (n.sweep now timeout).2 = diff n (n.sweep now timeout).1 := by
  have hn := h.sound.inOrder
  obtain ⟨hchildren, -⟩ := rollup_eq_self_iff.mp h.rolled
  rw [sweep_eq]
  split
  · exact (diff_self hn ht).symm
  · rename_i hsome
    refine (diff_of_alive halive ?_ ?_ fun hnil => absurd hnil hsome).symm
    · rw [rollup_eq]
      exact halive
    · have hreadings : diffReadings n.toNodeInfo (rollup ⟨n.toNodeInfo,
          Keyed.mapValues (fun child => (child.judge (Clock.sub now timeout)).1)
            n.children⟩).toNodeInfo
            = [] := by
        rw [rollup_eq]
        exact diffReadings_of_same ht.root rfl
      rw [hreadings, List.nil_append, diffChildren_eq, rollup_children]
      refine List.flatMap_congr fun e he => ?_
      have hverdict := judge_verdict (Clock.sub now timeout) e.2
      have hrolled := Keyed.mapValues_eq_self_iff.mp hchildren e he
      rw [Keyed.find?_mapValues, Keyed.find?_mapValues, Keyed.find?_of_mem hn.ordered he]
      show diff e.2 (rollup (e.2.judge (Clock.sub now timeout)).1) = _
      rw [hverdict.rolled hrolled]
      exact hverdict.events ((everywhere_iff.mp hn).2 e he) ((everywhere_iff.mp ht).2 e he) hrolled

end Node

/-! ## Meshes -/

namespace Mesh

theorem Reachable.isAlive {m : Mesh} (h : m.Reachable) : m.root.isAlive = true := by
  induction h with
  | new uuid hostname group now timeout => rfl
  | run _ c ih =>
    rw [run_root, Node.isAlive_apply]
    exact ih

theorem tabled_run {m : Mesh} (h : m.root.Tabled) {c : Change} (hc : c.Tabled) :
    (m.run c).root.Tabled := by
  rw [run_root]
  exact Node.tabled_apply h m.timeout hc

/-- What is reported of a stored or dropped reading and of a sweep is what a comparison of
the trees before and after gives.  The tables of the tree are in key order, as they are
if those of what was merged are (`tabled_run`). -/
theorem events_eq_diff {m : Mesh} (h : m.Reachable) (ht : m.root.Tabled) :
    (∀ r, (m.root.submit r).2 = Node.diff m.root (m.root.submit r).1) ∧
      (∀ name, (m.root.dropReading name).2.toList =
        Node.diff m.root (m.root.dropReading name).1) ∧
      ∀ now timeout, (m.root.sweep now timeout).2 =
        Node.diff m.root (m.root.sweep now timeout).1 := by
  have hc := h.coherent
  exact ⟨Node.submit_events hc ht h.isAlive, Node.dropReading_events hc ht h.isAlive,
    Node.sweep_differences hc ht h.isAlive⟩

theorem crossedRun_tabled : crossedRun.root.Tabled := by
  have hnew : (Mesh.new (Node.new "r" "root" "" 0) 60).root.Tabled := Node.tabled_new "r" "root" "" 0
  have hmerged : (Change.merge (Node.machine "b" [("c", Node.machine "c" [])]) 1).Tabled :=
    (by decide : (Node.machine "b" [("c", Node.machine "c" [])]).Tabled)
  have hcrossed : (Change.merge Node.crossedSnapshot 120).Tabled :=
    (by decide : Node.crossedSnapshot.Tabled)
  refine tabled_run (tabled_run (tabled_run (tabled_run hnew hmerged) ?_) ?_) hcrossed
  · exact trivial
  · exact trivial

theorem crossedRun_events_eq_diff :
    crossedRun.Reachable ∧ crossedRun.root.Tabled ∧
      Node.diff crossedRun.root
        (crossedRun.root.submit (Reading.plain "disk" Status.ok 0 "" (.ofUnix 9))).1
        = [.statusChanged ⟨"root", some "disk", Status.warning, Status.ok, "", []⟩] ∧
      Node.diff crossedRun.root (crossedRun.root.dropReading "disk").1
        = [.probeRemoved "root" (Reading.plain "disk" Status.warning 1 "" (.ofUnix 2))] ∧
      Node.diff crossedRun.root (crossedRun.root.sweep 100 100).1 = [.nodeUp "b" "b"] := by
  have hr := crossedRun_reachable
  have ht := crossedRun_tabled
  obtain ⟨hsubmit, hdrop, hsweep⟩ := events_eq_diff hr ht
  refine ⟨hr, ht, ?_, ?_, ?_⟩
  · rw [← hsubmit]
    rfl
  · rw [← hdrop]
    rfl
  · rw [← hsweep]
    rfl

end Mesh
end FleetMesh
