/-
What the queue tells when all tasks are done.

The changes took effect in some order, and the tree is what they make of it in that
order.  The queue has each of their events once, and these come in the order of the
changes as far as the changes did not overlap (`Story`).  Overlapping is all that can
put them in another order: a task queues the events of a change after it has released
the lock, so one that took effect later may have its events queued first
(`crossing_misleads`).

The last event about a local reading then says what the reading is, and the last one
that turns a child of the root says whether it is up.  Of other nodes this cannot be
said even of a single task, since a node may come to stand elsewhere and be said
nothing of (`crossing_misleads` again).
-/
import FleetMesh.Proofs.Queue.Order
import FleetMesh.Proofs.Tree.Apply

namespace FleetMesh

open Event (turns)

/-! ## Readings -/

/-- Whether a change is of the local reading of that name. -/
def Change.isAbout (name : String) : Change → Bool
  | .submit r => r.name = name
  | .dropReading other => other = name
  | _ => false

/-- The status that a reading has after an event about it; none if it is gone. -/
def Event.standing? : Event → Option Int
  | probeAdded _ r => some r.status
  | statusChanged c => some c.newStatus
  | _ => none

namespace Node

/-- The status of a local reading. -/
def status? (name : String) (n : Node) : Option Int :=
  (n.localHost.reading? name).map (fun r => r.status)

variable {n : Node} {name : String}

theorem status?_submit (n : Node) (r : Reading) (name : String) :
    status? name (n.submit r).1 = if r.name = name then some r.status else status? name n := by
  have hhost : (n.submit r).1.localHost = n.localHost.store r := host_apply 0 (.submit r) n
  rw [status?, hhost, Host.reading?_store, status?]
  split <;> rfl

theorem status?_dropReading (h : Keyed.Ordered n.localHost.readings) (other name : String) :
    status? name (n.dropReading other).1 = if other = name then none else status? name n := by
  have hhost : (n.dropReading other).1.localHost = n.localHost.drop other :=
    host_apply 0 (.dropReading other) n
  rw [status?, hhost, Host.reading?_drop h, status?]
  split <;> rfl

/-- What a change reports of a reading is what it makes of it. -/
theorem standing_apply (h : Keyed.Ordered n.localHost.readings) (timeout : Int) {c : Change}
    (hc : c.isAbout name = true) :
    ((c.apply timeout n).2.getLast?).elim (status? name n) Event.standing? =
      status? name (c.apply timeout n).1 := by
  cases c with
  | submit r =>
    have hname : r.name = name := of_decide_eq_true hc
    show ((n.submit r).2.getLast?).elim _ _ = status? name (n.submit r).1
    rw [status?_submit, if_pos hname, submit]
    dsimp only
    rw [hname]
    split
    · rfl
    · rename_i old hold
      split
      · rename_i hsame
        rw [← hsame]
        exact congrArg (Option.map _) hold
      · rfl
  | dropReading other =>
    have hname : other = name := of_decide_eq_true hc
    show ((n.dropReading other).2.toList.getLast?).elim _ _ = status? name (n.dropReading other).1
    rw [status?_dropReading h, if_pos hname, dropReading, hname]
    split
    · rename_i hnone
      exact congrArg (Option.map _) hnone
    · rfl
  | merge => cases hc
  | disable => cases hc
  | sweep => cases hc
  | dropChild => cases hc

/-- A change that is not of a reading leaves it. -/
theorem status?_apply (h : Keyed.Ordered n.localHost.readings) (timeout : Int) {c : Change}
    (hc : c.isAbout name = false) : status? name (c.apply timeout n).1 = status? name n := by
  cases c with
  | submit r => exact (status?_submit n r name).trans (if_neg (of_decide_eq_false hc))
  | dropReading other =>
    exact (status?_dropReading h other name).trans (if_neg (of_decide_eq_false hc))
  | merge incoming now => rw [status?, host_apply, status?]
  | disable other => rw [status?, host_apply, status?]
  | sweep now => rw [status?, host_apply, status?]
  | dropChild uuid => rw [status?, host_apply, status?]

end Node

namespace Mesh

open Writers (Report)

variable {m : Mesh} {name uuid : String}

theorem Reachable.ordered_readings (h : m.Reachable) :
    Keyed.Ordered m.root.localHost.readings := by
  induction h with
  | new uuid hostname group now timeout => exact List.Pairwise.nil
  | @run m _ c ih =>
    rw [run_root]
    exact Node.ordered_readings_apply ih m.timeout c

theorem Reachable.selfNamed (h : m.Reachable) : m.root.localHost.SelfNamed := by
  induction h with
  | new uuid hostname group now timeout => exact fun entry he => absurd he List.not_mem_nil
  | @run m _ c ih =>
    rw [run_root]
    exact Node.selfNamed_apply ih m.timeout c

/-- The last report about a reading says what it is after the run. -/
theorem standing_after (h : m.Reachable) (first : Nat) (changes : List Change) :
    (((m.reports first changes).filter (fun r => r.change.isAbout name)).getLast?).elim
        (m.root.status? name) (fun r => r.event.standing?) =
      (m.after changes).root.status? name := by
  induction changes generalizing m first with
  | nil => rfl
  | cons c changes ih =>
    have hrest := ih (h.run c) (first + 1)
    have hone : ((((c.apply m.timeout m.root).2.map (Report.mk first c)).filter
        (fun r => r.change.isAbout name)).getLast?).elim (m.root.status? name)
          (fun r => r.event.standing?) = (m.run c).root.status? name := by
      rw [run_root, List.filter_map, List.getLast?_map]
      cases hc : c.isAbout name with
      | true =>
        have hall : (c.apply m.timeout m.root).2.filter ((fun r => r.change.isAbout name) ∘
            Report.mk first c) = (c.apply m.timeout m.root).2 :=
          List.filter_eq_self.mpr fun _ _ => hc
        rw [← Node.standing_apply h.ordered_readings m.timeout hc, hall]
        cases (c.apply m.timeout m.root).2.getLast? <;> rfl
      | false =>
        have hnil : (c.apply m.timeout m.root).2.filter ((fun r => r.change.isAbout name) ∘
            Report.mk first c) = [] :=
          List.filter_eq_nil_iff.mpr fun _ _ => Bool.eq_false_iff.mp hc
        rw [Node.status?_apply h.ordered_readings m.timeout hc, hnil]
        rfl
    rw [reports, List.filter_append, List.getLast?_append]
    cases hlast : (((m.run c).reports (first + 1) changes).filter
        (fun r => r.change.isAbout name)).getLast? with
    | none =>
      rw [hlast] at hrest
      exact hone.trans hrest
    | some r =>
      rw [hlast] at hrest
      exact hrest

/-! ## Liveness -/

theorem course_getLast? (m : Mesh) (changes : List Change) :
    (m.course changes).getLast? = some (m.after changes) := by
  induction changes generalizing m with
  | nil => rfl
  | cons c changes ih =>
    rw [course, List.getLast?_cons, ih]
    rfl

/-- The last change of a flag says what it is. -/
theorem flips_getLast? (before : Bool) (rest : List Bool) :
    ((flips (before :: rest)).getLast?).or (some before) = (before :: rest).getLast? := by
  induction rest generalizing before with
  | nil => rfl
  | cons after rest ih =>
    rw [flips, List.getLast?_append, Option.or_assoc, List.getLast?_cons_cons, ← ih after]
    congr 1
    by_cases hsame : before = after
    · rw [hsame, turn_self]
      rfl
    · rw [turn, if_neg hsame]
      rfl

/-- The last event that turns a machine says whether it is up, as long as it stays a
child of the root. -/
theorem alive?_after (h : m.Reachable) {changes : List Change}
    (hstays : ∀ v ∈ m.course changes, (v.root.alive? uuid).isSome) :
    ((turns uuid (m.events changes)).getLast?).or (m.root.alive? uuid) =
      (m.after changes).root.alive? uuid := by
  obtain ⟨flags, hflags⟩ : ∃ flags : List Bool,
      (m.course changes).map (fun v => v.root.alive? uuid) = flags.map some := by
    refine ⟨(m.course changes).map (fun v => (v.root.alive? uuid).getD false), ?_⟩
    rw [List.map_map]
    refine List.map_congr_left fun v hv => ?_
    obtain ⟨up, hup⟩ := Option.isSome_iff_exists.mp (hstays v hv)
    rw [Function.comp_apply, hup]
    rfl
  have hlast := congrArg List.getLast? hflags
  rw [List.getLast?_map, List.getLast?_map, course_getLast?, Option.map_some] at hlast
  obtain ⟨up, hup, hafter⟩ := Option.map_eq_some_iff.mp hlast.symm
  rw [turns_events h hflags, ← hafter, ← hup]
  obtain ⟨later, hlater⟩ := course_head m changes
  rw [hlater] at hflags
  cases flags with
  | nil => cases hflags
  | cons before rest =>
    have hhead : m.root.alive? uuid = some before := (List.cons.inj hflags).1
    rw [hhead]
    exact flips_getLast? before rest

end Mesh

namespace Writers

variable {m : Mesh} {queue : EventQueue} {programs : List (List Change)} {w : Writers}

/-- What is left when all tasks are done. -/
structure Story (m : Mesh) (queue : EventQueue) (programs : List (List Change))
    (w : Writers) : Prop where
  /-- Every task made its changes, in its order. -/
  programs : ∀ place, w.made place = (programs[place]?).getD []
  tree : w.mesh.root = (m.after w.changes).root
  queued : w.mesh.queue.pending = queue.pending ++ w.told.map Report.event
  /-- No event is lost and none is queued twice, and those of one change come in their
  order. -/
  complete : ∀ k, w.told.filter (fun r => r.number = k) =
    (m.reports 0 w.changes).filter (fun r => r.number = k)
  /-- An event comes before one of an earlier change only if the changes overlapped. -/
  ahead : w.told.Pairwise (fun r s => s.number < r.number → w.Overlap s.number r.number)
  serial : ∀ P, w.Serial P → w.told.filter P = (m.reports 0 w.changes).filter P
  whole : (∀ j k, ¬ w.Overlap j k) →
    w.mesh.queue.pending = queue.pending ++ m.events w.changes
  /-- The last event about a local reading agrees with the tree. -/
  reading : ∀ name, w.Serial (fun r => r.change.isAbout name) →
    ((w.told.filter (fun r => r.change.isAbout name)).getLast?).elim (m.root.status? name)
        (fun r => r.event.standing?) = w.mesh.root.status? name
  /-- So does the last event that turns a machine, from a change on after which it is
  a child of the root and stays one. -/
  liveness : ∀ uuid before later, w.changes = before ++ later →
    (∀ v ∈ (m.after before).course later, (v.root.alive? uuid).isSome) →
      w.Serial (fun r => decide (before.length ≤ r.number) && (r.event.turn? uuid).isSome) →
        ((turns uuid ((w.told.filter (fun r => before.length ≤ r.number)).map
            Report.event)).getLast?).or ((m.after before).root.alive? uuid) =
          w.mesh.root.alive? uuid

/-- What turns a machine among some reports is among those that turn it. -/
theorem turns_filter (uuid : String) (P : Report → Bool) (reports : List Report) :
    turns uuid ((reports.filter P).map Report.event) =
      turns uuid ((reports.filter (fun r => P r && (r.event.turn? uuid).isSome)).map
        Report.event) := by
  rw [turns, turns, List.filterMap_map, List.filterMap_map, List.filterMap_filter,
    List.filterMap_filter]
  congr 1
  funext r
  rw [Function.comp_apply]
  cases P r <;> cases r.event.turn? uuid <;> rfl

/-- The reports from a change on. -/
theorem reports_from (m : Mesh) (before later : List Change) :
    (m.reports 0 (before ++ later)).filter (fun r => decide (before.length ≤ r.number)) =
      (m.after before).reports before.length later := by
  have hbefore : (m.reports 0 before).filter (fun r => decide (before.length ≤ r.number)) = [] := by
    refine List.filter_eq_nil_iff.mpr fun r hr => ?_
    have hbound := (Mesh.number_of_report hr).2
    simpa using hbound
  rw [Mesh.reports_append, List.filter_append, hbefore, Nat.zero_add]
  exact List.filter_eq_self.mpr fun r hr => decide_eq_true (Mesh.number_of_report hr).1

/-- However the steps of some tasks interleave. -/
theorem story_of_finished (h : m.Reachable) (hopen : queue.isOpen = true) {places : List Nat}
    (hdone : ((start m queue programs).after places).Finished) :
    Story m queue programs ((start m queue programs).after places) := by
  have hc : Consistent m queue programs ((start m queue programs).after places) :=
    consistent_after hopen places
  generalize (start m queue programs).after places = w at hc hdone
  have hqueued : w.mesh.queue.pending = queue.pending ++ w.told.map Report.event := by
    rw [hc.queued]
  exact
    { programs := by
        intro place
        rw [← hc.programs place, toDo_of_finished hdone, List.append_nil]
      tree := hc.tree
      queued := hqueued
      complete := hc.complete_told hdone
      ahead := hc.ahead
      serial := fun P hP => hc.serial hdone hP
      whole := by
        intro hno
        have hall : w.told.filter (fun _ => true) = (m.reports 0 w.changes).filter (fun _ => true) :=
          hc.serial hdone fun r _ s _ _ _ => hno r.number s.number
        rw [List.filter_true, List.filter_true] at hall
        rw [hqueued, hall, Mesh.reports_event]
      reading := by
        intro name hP
        rw [hc.serial hdone hP, Mesh.standing_after h, hc.tree]
      liveness := by
        intro uuid before later hchanges hstays hP
        rw [turns_filter, hc.serial hdone hP, ← turns_filter, hchanges, reports_from,
          Mesh.reports_event, Mesh.alive?_after (h.after before) hstays, hc.tree, hchanges]
        exact congrArg (fun v : Mesh => v.root.alive? uuid) List.foldl_append.symm }

/-- A task stores a reading of `load` and drops it, another one sweeps, and a third one
stores a reading of `disk`. -/
def crossingPrograms : List (List Change) :=
  [[.submit (Reading.plain "load" Status.warning 1 "" (.ofUnix 300)), .dropReading "load"],
    [.sweep 300],
    [.submit (Reading.plain "disk" Status.critical 2 "" (.ofUnix 300))]]

/-- The last change takes effect while the first two tasks are queueing, and its event is
queued before that of the first task. -/
def crossingSteps : List Nat := [0, 1, 0, 0, 2, 1, 2, 0]

theorem crossing_story :
    ((start Mesh.crossedRun .empty crossingPrograms).after crossingSteps).Finished ∧
      ((start Mesh.crossedRun .empty crossingPrograms).after crossingSteps).told.map
        Report.number = [0, 1, 3, 2] ∧
      Story Mesh.crossedRun .empty crossingPrograms
        ((start Mesh.crossedRun .empty crossingPrograms).after crossingSteps) := by
  have hdone : ((start Mesh.crossedRun .empty crossingPrograms).after crossingSteps).Finished := by
    decide
  exact ⟨hdone, by decide, story_of_finished Mesh.crossedRun_reachable rfl hdone⟩

/-- A reading of `load` is stored by one task and dropped by another, which queues its event
first. -/
def droppedLoad : Writers :=
  (start (Mesh.new (Node.new "r" "root" "" 0) 60) .empty
    [[.submit (Reading.plain "load" Status.warning 1 "" (.ofUnix 1))], [.dropReading "load"]]).after
      [0, 1, 1, 0]

/-- One task alone: `a` reports that its neighbour `b` is up, then that it is down, and
then `b` reports. -/
def adoptedNeighbour : Writers :=
  (start (Mesh.new (Node.new "r" "root" "" 0) 60) .empty
    [[.merge (Node.machine "a" [("b", Node.machine "b" [])]) 1,
      .merge (Node.machine "a" [("b", { Node.machine "b" [] with isAlive := false })]) 2,
      .merge (Node.machine "b" []) 3]]).after [0, 0, 0, 0]

/-- The queue is not in the order of the changes, and its last event speaks of a reading
that is gone; and it may end with a machine going down that is up. -/
theorem crossing_misleads :
    (droppedLoad.Finished ∧
      droppedLoad.changes =
        [.submit (Reading.plain "load" Status.warning 1 "" (.ofUnix 1)), .dropReading "load"] ∧
      droppedLoad.mesh.queue.pending ≠
        (Mesh.new (Node.new "r" "root" "" 0) 60).events droppedLoad.changes ∧
      droppedLoad.mesh.queue.pending.map Event.kind = ["RemovedProbe", "NewProbe"] ∧
      droppedLoad.mesh.root.status? "load" = none) ∧
    (adoptedNeighbour.Finished ∧
      turns "b" adoptedNeighbour.mesh.queue.pending = [false] ∧
      adoptedNeighbour.mesh.root.alive? "b" = some true) := by
  refine ⟨⟨by decide, rfl, fun hsame => ?_, by decide, by decide⟩, by decide, by decide, by decide⟩
  have hkinds := congrArg (List.map Event.kind) hsame
  revert hkinds
  decide

end Writers
end FleetMesh
