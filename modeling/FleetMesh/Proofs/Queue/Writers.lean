/-
Tasks that change the tree at the same time.

A task makes its changes one after the other.  A change of the tree is one step under
the lock.  The events of the change are queued when the lock is released, one in each
step, and between two steps others have theirs.  A task that has all its steps in a
row does what `Mesh.run` does (`alone_run`).

Beside the state stands what was done: the changes in the order in which they took
effect, and the events in the order in which they were queued.  No step goes by it.
-/
import FleetMesh.Proofs.Mesh
import Mathlib.Logic.Function.Iterate

namespace FleetMesh
namespace Writers

/-- An event with the change that it is of, and the number of that change. -/
structure Report where
  number : Nat
  change : Change
  event : Event

/-- A change that took effect. -/
structure Entry where
  change : Change
  /-- The task that made it. -/
  place : Nat
  /-- The numbers of the changes of which events were yet to be queued. -/
  underway : List Nat

structure Task where
  /-- What it is still going to do, in this order. -/
  changes : List Change
  /-- What it has yet to queue of its last change. -/
  unsent : List Report

end Writers

open Writers (Report Entry Task)

/-- A mesh with the tasks that write to it. -/
structure Writers where
  mesh : Mesh
  tasks : List Task
  record : List Entry
  told : List Report

namespace Writers

/-- Tasks that have not begun.  The mesh is taken with a queue of its own, because what
it queued before may have been received. -/
def start (m : Mesh) (queue : EventQueue) (programs : List (List Change)) : Writers :=
  ⟨{ m with queue := queue }, programs.map (fun changes => ⟨changes, []⟩), [], []⟩

/-- The changes of which events are yet to be queued. -/
def underway (w : Writers) : List Nat := (w.tasks.flatMap Task.unsent).map Report.number

/-- A task changes the tree. -/
def change (w : Writers) (place : Nat) (c : Change) (rest : List Change) : Writers :=
  let (root, events) := c.apply w.mesh.timeout w.mesh.root
  { mesh := { w.mesh with root := root }
    tasks := w.tasks.set place ⟨rest, events.map (Report.mk w.record.length c)⟩
    record := w.record ++ [⟨c, place, w.underway⟩]
    told := w.told }

/-- A task queues the first of the events that it has. -/
def notify (w : Writers) (place : Nat) (r : Report) (left : Task) : Writers :=
  { w with
    mesh := w.mesh.notify r.event
    tasks := w.tasks.set place left
    told := w.told ++ [r] }

/-- The next step of a task.  One that is done has nothing left to do. -/
def step (w : Writers) (place : Nat) : Writers :=
  match w.tasks[place]? with
  | some ⟨changes, r :: unsent⟩ => w.notify place r ⟨changes, unsent⟩
  | some ⟨c :: rest, []⟩ => w.change place c rest
  | some ⟨[], []⟩ => w
  | none => w

/-- The steps of some tasks, one after the other. -/
def after (w : Writers) (places : List Nat) : Writers := places.foldl step w

def Finished (w : Writers) : Prop := ∀ task ∈ w.tasks, task.changes = [] ∧ task.unsent = []

instance (w : Writers) : Decidable w.Finished :=
  inferInstanceAs (Decidable (∀ task ∈ w.tasks, task.changes = [] ∧ task.unsent = []))

variable {w : Writers} {place : Nat} {c : Change} {rest : List Change}

/-! ## One task -/

/-- What a step can do. -/
inductive Move (w : Writers) (place : Nat) : Writers → Prop
  | rest : Move w place w
  | changed {c : Change} {rest : List Change} (h : w.tasks[place]? = some ⟨c :: rest, []⟩) :
    Move w place (w.change place c rest)
  | notified {changes : List Change} {r : Report} {unsent : List Report}
    (h : w.tasks[place]? = some ⟨changes, r :: unsent⟩) :
    Move w place (w.notify place r ⟨changes, unsent⟩)

theorem move_step (w : Writers) (place : Nat) : Move w place (w.step place) := by
  rw [step]
  split
  · exact .notified ‹_›
  · exact .changed ‹_›
  · exact .rest
  · exact .rest

/-- The tasks when one of them has moved. -/
theorem getElem?_set_task {task : Task} (h : w.tasks[place]? = some task) (left : Task)
    (other : Nat) :
    (w.tasks.set place left)[other]? = if other = place then some left else w.tasks[other]? := by
  obtain ⟨hlt, -⟩ := List.getElem?_eq_some_iff.mp h
  rw [List.getElem?_set]
  by_cases he : other = place
  · rw [if_pos he, if_pos he.symm, if_pos hlt]
  · rw [if_neg he, if_neg fun h => he h.symm]

/-- A task that has all its steps in a row queues all that it has. -/
theorem alone_publish {reports : List Report} (h : w.tasks[place]? = some ⟨rest, reports⟩) :
    ((fun w => step w place)^[reports.length] w).mesh =
      w.mesh.publish (reports.map Report.event) := by
  induction reports generalizing w with
  | nil => rfl
  | cons r reports ih =>
    have hstep : w.step place = w.notify place r ⟨rest, reports⟩ := by
      rw [step, h]
    have hleft : (w.notify place r ⟨rest, reports⟩).tasks[place]? = some ⟨rest, reports⟩ := by
      rw [notify, getElem?_set_task h, if_pos rfl]
    rw [List.length_cons, Function.iterate_succ_apply, hstep, ih hleft]
    rfl

/-- A change whose events are queued at once is a run of the mesh. -/
theorem alone_run (h : w.tasks[place]? = some ⟨c :: rest, []⟩) :
    ((fun w => step w place)^[(c.apply w.mesh.timeout w.mesh.root).2.length + 1] w).mesh =
      w.mesh.run c := by
  have hstep : w.step place = w.change place c rest := by
    rw [step, h]
  have hleft : (w.change place c rest).tasks[place]? =
      some ⟨rest, (c.apply w.mesh.timeout w.mesh.root).2.map (Report.mk w.record.length c)⟩ := by
    rw [change, getElem?_set_task h, if_pos rfl]
  have hpublish := alone_publish hleft
  rw [List.length_map, List.map_map] at hpublish
  rw [Function.iterate_succ_apply, hstep, hpublish]
  show Mesh.publish _ (List.map id _) = _
  rw [List.map_id]
  rfl

end Writers
end FleetMesh
