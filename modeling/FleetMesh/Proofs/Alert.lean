/-
What a receiver of the delivered events knows.

A receiver keeps the names of the local readings that are at the level or above: it
notes a name when it is told of such a status, and forgets it when it is told of a
lower one or that the reading is gone.  It sees only what the policy admits.  That is
enough: an event that is kept back moves a status from below the level to below the
level, or tells of a new reading below it, and of either the receiver has nothing to
note.  So after any submissions and removals it has the readings that reach the level
and no others (`mem_watch_events`).
-/
import FleetMesh.Alert
import FleetMesh.Proofs.Queue.Story
import Mathlib.Data.Finset.Insert

namespace FleetMesh

/-! ## The receiver -/

/-- The names after a status of one of them was told. -/
def mark (level : Int) (name : String) (status : Int) (alerts : Finset String) : Finset String :=
  if level ≤ status then insert name alerts else alerts.erase name

/-- The names after an event. -/
def Event.note (level : Int) (alerts : Finset String) : Event → Finset String
  | probeAdded _ r => mark level r.name r.status alerts
  | statusChanged c => c.probe.elim alerts (fun name => mark level name c.newStatus alerts)
  | probeRemoved _ r => alerts.erase r.name
  | nodeUp .. | nodeDown .. | notice _ => alerts

/-- The names after some events, of which the policy kept some back. -/
def AlertPolicy.watch (p : AlertPolicy) (alerts : Finset String) (events : List Event) :
    Finset String :=
  (events.filter p.admits).foldl (Event.note p.minLevel) alerts

/-- Whether the names are those of the local readings that reach the level. -/
def AlertPolicy.Informed (p : AlertPolicy) (alerts : Finset String) (n : Node) : Prop :=
  ∀ name, name ∈ alerts ↔ ∃ status, n.status? name = some status ∧ p.minLevel ≤ status

theorem mem_mark {level status : Int} {name other : String} {alerts : Finset String} :
    other ∈ mark level name status alerts ↔
      if name = other then level ≤ status else other ∈ alerts := by
  rw [mark]
  by_cases hname : name = other
  · rw [if_pos hname, hname]
    split <;> simp [*]
  · rw [if_neg hname]
    split <;> simp [Ne.symm hname]

/-- To a name that is not among them a low status adds nothing. -/
theorem mem_iff_of_low {level status : Int} {name : String} {alerts : Finset String}
    (hlow : ¬ level ≤ status) (hname : name ∉ alerts) (other : String) :
    other ∈ alerts ↔ if name = other then level ≤ status else other ∈ alerts := by
  split
  · rename_i he
    exact iff_of_false (he ▸ hname) hlow
  · rfl

namespace AlertPolicy

variable {p : AlertPolicy} {alerts : Finset String} {n : Node}

theorem watch_append (p : AlertPolicy) (alerts : Finset String) (events more : List Event) :
    p.watch alerts (events ++ more) = p.watch (p.watch alerts events) more := by
  rw [watch, List.filter_append, List.foldl_append]
  rfl

theorem watch_singleton (p : AlertPolicy) (alerts : Finset String) (e : Event) :
    p.watch alerts [e] = if p.admits e then e.note p.minLevel alerts else alerts := by
  cases hadmits : p.admits e <;> simp [watch, hadmits]

/-! ## One change -/

theorem Informed.not_mem (h : p.Informed alerts n) {name : String}
    (hnone : n.localHost.reading? name = none) : name ∉ alerts := by
  rw [h]
  rintro ⟨status, hstatus, _⟩
  rw [Node.status?, hnone] at hstatus
  cases hstatus

theorem Informed.mem_iff (h : p.Informed alerts n) {name : String} {r : Reading}
    (hr : n.localHost.reading? name = some r) : name ∈ alerts ↔ p.minLevel ≤ r.status := by
  rw [h, Node.status?, hr]
  simp

/-- Told of it or not, the receiver has the name of a fresh reading just if it reaches
the level. -/
theorem mem_watch_submit (hp : p.onProbeChange = true) (h : p.Informed alerts n) (r : Reading)
    (name : String) :
    name ∈ p.watch alerts (n.submit r).2 ↔
      if r.name = name then p.minLevel ≤ r.status else name ∈ alerts := by
  rw [Node.submit]
  dsimp only
  cases hold : n.localHost.reading? r.name with
  | none =>
    have hadmits : p.admits (.probeAdded n.hostname r) = decide (p.minLevel ≤ r.status) := by
      rw [admits, hp, Bool.true_and]
    dsimp only
    rw [watch_singleton, hadmits]
    split
    · exact mem_mark
    · rename_i hlow
      exact mem_iff_of_low (by simpa using hlow) (h.not_mem hold) name
  | some old =>
    dsimp only
    split
    · -- the same status says the same
      rename_i hsame
      show name ∈ alerts ↔ _
      split
      · rename_i hname
        rw [← hname, h.mem_iff hold, hsame]
      · rfl
    · rw [watch_singleton]
      split
      · exact mem_mark
      · rename_i hback
        obtain ⟨hlow, hbefore⟩ : ¬ p.minLevel ≤ r.status ∧ ¬ p.minLevel ≤ old.status := by
          simpa [admits, hp] using hback
        exact mem_iff_of_low hlow (by rwa [h.mem_iff hold]) name

theorem mem_watch_dropReading (hp : p.onProbeChange = true) (h : p.Informed alerts n)
    (hnamed : n.localHost.SelfNamed) (other name : String) :
    name ∈ p.watch alerts (n.dropReading other).2.toList ↔ other ≠ name ∧ name ∈ alerts := by
  rw [Node.dropReading]
  cases hold : n.localHost.reading? other with
  | none =>
    show name ∈ alerts ↔ _
    refine ⟨fun hmem => ⟨?_, hmem⟩, And.right⟩
    rintro rfl
    exact h.not_mem hold hmem
  | some r =>
    show name ∈ p.watch alerts [.probeRemoved n.hostname r] ↔ _
    rw [watch_singleton, admits, hp, if_pos rfl, Event.note, hnamed.name_of_reading? hold,
      Finset.mem_erase, ne_comm]

/-- A change of a local reading leaves the receiver informed. -/
theorem Informed.apply (hp : p.onProbeChange = true) (h : p.Informed alerts n)
    (hord : Keyed.Ordered n.localHost.readings) (hnamed : n.localHost.SelfNamed) (timeout : Int)
    {c : Change} {about : String} (hc : c.isAbout about = true) :
    p.Informed (p.watch alerts (c.apply timeout n).2) (c.apply timeout n).1 := by
  intro name
  cases c with
  | submit r =>
    show name ∈ p.watch alerts (n.submit r).2 ↔ ∃ s, (n.submit r).1.status? name = some s ∧ _
    rw [mem_watch_submit hp h, Node.status?_submit]
    split
    · simp
    · exact h name
  | dropReading other =>
    show name ∈ p.watch alerts (n.dropReading other).2.toList ↔
      ∃ s, (n.dropReading other).1.status? name = some s ∧ _
    rw [mem_watch_dropReading hp h hnamed, Node.status?_dropReading hord, h name]
    split <;> simp [*]
  | merge => cases hc
  | disable => cases hc
  | sweep => cases hc
  | dropChild => cases hc

/-! ## Runs -/

theorem Informed.run {m : Mesh} (hp : p.onProbeChange = true) (hm : m.Reachable)
    (h : p.Informed alerts m.root) {changes : List Change}
    (hlocal : ∀ c ∈ changes, ∃ name, c.isAbout name = true) :
    p.Informed (p.watch alerts (m.events changes)) (m.after changes).root := by
  induction changes generalizing m alerts with
  | nil => exact h
  | cons c changes ih =>
    obtain ⟨⟨about, hc⟩, hrest⟩ := List.forall_mem_cons.mp hlocal
    have hstep := h.apply hp hm.ordered_readings hm.selfNamed m.timeout hc
    rw [← Mesh.run_root] at hstep
    rw [Mesh.events, watch_append]
    exact ih (hm.run c) hstep hrest

/-- After any submissions and removals of readings on a fresh machine, a receiver of what
the policy admits has the names of the readings that reach the level, and no others. -/
theorem mem_watch_events (p : AlertPolicy) (hp : p.onProbeChange = true)
    (uuid hostname group : String) (now timeout : Int) {changes : List Change}
    (hlocal : ∀ c ∈ changes, ∃ name, c.isAbout name = true) (name : String) :
    name ∈ p.watch ∅ ((Mesh.new (Node.new uuid hostname group now) timeout).events changes) ↔
      ∃ r, ((Mesh.new (Node.new uuid hostname group now) timeout).after
            changes).root.localHost.reading? name = some r ∧
        r.name = name ∧ p.minLevel ≤ r.status := by
  have hm : (Mesh.new (Node.new uuid hostname group now) timeout).Reachable := .new _ _ _ _ _
  have hstart : p.Informed ∅ (Mesh.new (Node.new uuid hostname group now) timeout).root := by
    intro name
    refine iff_of_false (Finset.notMem_empty name) ?_
    rintro ⟨status, hstatus, _⟩
    cases hstatus
  rw [hstart.run hp hm hlocal name, Node.status?]
  constructor
  · rintro ⟨status, hstatus, hlevel⟩
    obtain ⟨r, hr, rfl⟩ := Option.map_eq_some_iff.mp hstatus
    exact ⟨r, hr, (hm.after changes).selfNamed.name_of_reading? hr, hlevel⟩
  · rintro ⟨r, hr, _, hlevel⟩
    exact ⟨r.status, by rw [hr, Option.map_some], hlevel⟩

/-- Only what is critical is delivered, and nothing of nodes. -/
def criticalOnly : AlertPolicy :=
  { AlertPolicy.default with minLevel := Status.critical, onNodeChange := false }

/-- The load rises in two steps and falls again, while the disk goes away at its worst and
comes back at a better status, and then gets worse. -/
def crossingReadings : List Change :=
  [.submit (Reading.plain "load" Status.warning 1 "" (.ofUnix 1)),
    .submit (Reading.plain "load" Status.critical 2 "" (.ofUnix 2)),
    .submit (Reading.plain "disk" Status.critical 2 "" (.ofUnix 3)), .dropReading "disk",
    .submit (Reading.plain "disk" Status.ok 0 "" (.ofUnix 4)),
    .submit (Reading.plain "load" Status.warning 1 "" (.ofUnix 5)), .dropReading "net",
    .submit (Reading.plain "disk" Status.critical 2 "" (.ofUnix 6))]

theorem mem_watch_crossingReadings :
    criticalOnly.onProbeChange = true ∧
      (∀ c ∈ crossingReadings, ∃ name, c.isAbout name = true) ∧
      criticalOnly.watch ∅ ((Mesh.new (Node.new "r" "root" "" 0) 60).events crossingReadings) =
        {"disk"} ∧
      ∀ name, name ∈ criticalOnly.watch ∅
          ((Mesh.new (Node.new "r" "root" "" 0) 60).events crossingReadings) ↔
        ∃ r, ((Mesh.new (Node.new "r" "root" "" 0) 60).after
              crossingReadings).root.localHost.reading? name = some r ∧
          r.name = name ∧ criticalOnly.minLevel ≤ r.status := by
  have hlocal : ∀ c ∈ crossingReadings, ∃ name, c.isAbout name = true := by
    simp [crossingReadings, Change.isAbout]
  exact ⟨rfl, hlocal, by decide, mem_watch_events criticalOnly rfl "r" "root" "" 0 60 hlocal⟩

end AlertPolicy
end FleetMesh
