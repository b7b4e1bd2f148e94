/-
Liveness along a run.

While a machine stays a child of the root, the events of all changes turn it up
and down exactly as its flag turns (`turns_events`), so they alternate.  One step
is `turns_apply`.  The events of a merge come from the comparison of two
snapshots, and it is because an identifier stands in one place that they do not
speak of a child other than the one they are about.
-/
import FleetMesh.Proofs.Duplicates.Repeat
import FleetMesh.Proofs.Liveness.Sweep
import Mathlib.Data.List.Chain

namespace FleetMesh

open Event (turns)

namespace Node

variable {n : Node} {uuid : String} {before after : Bool}

/-! ## The place of a child -/

theorem Coherent.filed (h : n.Coherent) {c : Node} (hc : Keyed.find? uuid n.children = some c) :
    c.uuid = uuid ∧ uuid ≠ "" := by
  have hfiled : uuid = c.uuid ∧ c.uuid ≠ "" :=
    (everywhere_iff.mp h.sound).1.filed _ (Keyed.mem_of_find? hc)
  obtain ⟨rfl, hne⟩ := hfiled
  exact ⟨rfl, hne⟩

/-- The identifier of a child stands nowhere else. -/
theorem position_of_child (h : n.Coherent) (hc : alive? uuid n = some before) {p : List String}
    (hp : uuid? p n = some uuid) : p = [uuid] := by
  obtain ⟨c, hc, _⟩ := Option.map_eq_some_iff.mp hc
  refine h.distinct p [uuid] uuid hp (uuid?_eq_some.mpr ⟨c, ?_, (h.filed hc).1⟩)
  exact at?_cons_eq_some.mpr ⟨c, hc, rfl⟩

theorem child_ne_root (h : n.Coherent) (hc : alive? uuid n = some before) : uuid ≠ n.uuid := by
  intro hroot
  rw [hroot, alive?_eq_own?, own?_self h] at hc
  cases hc

/-- What changes the root's own record only leaves the children's flags. -/
theorem alive?_rollup (uuid : String) (n : Node) : alive? uuid n.rollup = alive? uuid n := by
  rw [alive?_eq_own?, alive?_eq_own?, own?_rollup]

/-! ## Merges -/

theorem alive?_merge_of_ne (h : n.Coherent) {incoming : Node} (now : Int)
    (hne : incoming.uuid ≠ uuid) : alive? uuid (n.merge incoming now).1 = alive? uuid n := by
  rw [alive?_eq_own?, alive?_eq_own?, own?_merge_of_ne h now hne]

/-- A merge does not bring up the machine that it is of. -/
theorem alive?_merged_of_down (h : n.Coherent) {incoming : Node} (now : Int)
    (hb : alive? incoming.uuid n = some false) :
    alive? incoming.uuid (merged n incoming now) = some false := by
  have hne := child_ne_root h hb
  obtain ⟨c, hc, hdown⟩ := Option.map_eq_some_iff.mp hb
  rw [alive?_eq_own?, own?_merged_newcomer h.sound hne now, dated, if_pos rfl, hc, Option.any_some,
    hdown]
  rfl

theorem turns_changed (h : n.Coherent) (ha : alive? uuid n = some after) (old : Node) :
    turns uuid (changed (some old) (Keyed.find? uuid n.children)) = turn old.isAlive after := by
  have hplace := fun p => @position_of_child _ uuid after h ha p
  obtain ⟨new, hnew, rfl⟩ := Option.map_eq_some_iff.mp ha
  rw [hnew]
  refine turns_diff (h.filed hnew).1 fun p hp hpu => hp ?_
  have hcons : uuid? (uuid :: p) n = some uuid := by
    rw [uuid?_cons, hnew]
    exact hpu
  exact (List.cons.inj (hplace _ hcons)).2

/-- What is said of one child does not turn another one. -/
theorem turns_changed_of_ne (h : n.Coherent) (ha : alive? uuid n = some after) {key : String}
    (hne : key ≠ uuid) (previous : Option Node) :
    turns uuid (changed previous (Keyed.find? key n.children)) = [] := by
  cases previous with
  | none => rfl
  | some old =>
    cases hnew : Keyed.find? key n.children with
    | none => rfl
    | some new =>
      refine turns_diff_of_absent fun p hpu => hne ?_
      have hcons : uuid? (key :: p) n = some uuid := by
        rw [uuid?_cons, hnew]
        exact hpu
      exact (List.cons.inj (position_of_child h ha hcons)).1

theorem turns_merge (h : n.Coherent) (incoming : Node) (now : Int)
    (hb : alive? uuid n = some before)
    (ha : alive? uuid (n.merge incoming now).1 = some after) :
    turns uuid (n.merge incoming now).2.events = turn before after := by
  have hrefused : ∀ why, n.merge incoming now = (n, .refused why) →
      turns uuid (n.merge incoming now).2.events = turn before after := by
    intro why he
    rw [he, hb] at ha
    rw [he, Option.some.inj ha, turn_self]
    rfl
  by_cases hid : incoming.uuid = ""
  · exact hrefused .noIdentity (if_pos hid)
  by_cases hne : incoming.uuid = n.uuid
  · exact hrefused .ownIdentity ((if_neg hid).trans (if_pos hne))
  have hmerged := merged_coherent h hid hne now
  have hkept : incoming.uuid ≠ uuid → before = after := fun hu =>
    Option.some.inj (hb.symm.trans ((alive?_merge_of_ne h now hu).symm.trans ha))
  rw [merge_changed hid hne now] at ha ⊢
  show turns uuid (changed _ _) = _
  by_cases hu : incoming.uuid = uuid
  · subst hu
    obtain ⟨old, hold, rfl⟩ := Option.map_eq_some_iff.mp hb
    rw [hold]
    exact turns_changed hmerged ha old
  · rw [turns_changed_of_ne hmerged ha hu, hkept hu, turn_self]

/-! ## All changes -/

theorem turns_submit (n : Node) (r : Reading) : turns uuid (n.submit r).2 = [] := by
  rw [submit]
  dsimp only
  split
  · rfl
  · split <;> rfl

theorem alive?_submit (n : Node) (r : Reading) : alive? uuid (n.submit r).1 = alive? uuid n :=
  alive?_rollup uuid _

theorem turns_dropReading (n : Node) (name : String) :
    turns uuid (n.dropReading name).2.toList = [] := by
  rw [dropReading]
  split <;> rfl

theorem alive?_dropReading (n : Node) (name : String) :
    alive? uuid (n.dropReading name).1 = alive? uuid n := by
  rw [dropReading]
  split
  · rfl
  · exact alive?_rollup uuid _

/-- A child that is left when another one is dropped is as it was. -/
theorem alive?_dropChild (hn : n.InOrder) {other : String}
    (ha : alive? uuid (n.dropChild other) = some after) : alive? uuid n = some after := by
  rcases dropChild_cases n other with he | he
  · rwa [he] at ha
  · rw [he, alive?_rollup, alive?_eq_own?] at ha
    rw [alive?_eq_own?]
    have hkept := own?_eraseAt hn (List.cons_ne_nil other []) [uuid]
    by_cases hpre : [other] <+: [uuid]
    · rw [hkept.1 hpre] at ha
      cases ha
    · rwa [hkept.2 hpre] at ha

theorem alive?_dropChild_self (h : Keyed.Ordered n.children) (uuid : String) :
    alive? uuid (n.dropChild uuid) = none := by
  rw [dropChild]
  split
  · rw [alive?_rollup, alive?, Keyed.find?_erase h, if_pos rfl]
    rfl
  · rename_i hno
    rw [Keyed.contains, Bool.not_eq_true, Option.isSome_eq_false_iff] at hno
    rw [alive?, Option.isNone_iff_eq_none.mp hno]
    rfl

/-- Nobody becomes a child of the root but by a merge of its own snapshot. -/
theorem alive?_apply_of_absent (h : n.Coherent) (timeout : Int) {c : Change}
    (habsent : alive? uuid n = none)
    (hc : ∀ incoming now, c = .merge incoming now → incoming.uuid ≠ uuid) :
    alive? uuid (c.apply timeout n).1 = none := by
  cases c with
  | merge incoming now => exact (alive?_merge_of_ne h now (hc incoming now rfl)).trans habsent
  | submit r => exact (alive?_submit n r).trans habsent
  | dropReading name => exact (alive?_dropReading n name).trans habsent
  | disable name => exact habsent
  | sweep now =>
    rw [alive?_eq_own?, Option.map_eq_none_iff] at habsent
    show alive? uuid (n.sweep now timeout).1 = none
    rw [alive?_sweep, habsent]
    rfl
  | dropChild other =>
    show alive? uuid (n.dropChild other) = none
    cases hafter : alive? uuid (n.dropChild other) with
    | none => rfl
    | some after => exact nomatch habsent.symm.trans (alive?_dropChild h.sound.inOrder hafter)

/-- What a change says of a child is how the child's flag changed. -/
theorem turns_apply (h : n.Coherent) (timeout : Int) (c : Change)
    (hb : alive? uuid n = some before)
    (ha : alive? uuid (c.apply timeout n).1 = some after) :
    turns uuid (c.apply timeout n).2 = turn before after := by
  have hsilent : turns uuid (c.apply timeout n).2 = [] →
      alive? uuid n = some after → turns uuid (c.apply timeout n).2 = turn before after := by
    intro hnil hsame
    rw [hb] at hsame
    rw [hnil, Option.some.inj hsame, turn_self]
  cases c with
  | merge incoming now => exact turns_merge h incoming now hb ha
  | submit r => exact hsilent (turns_submit n r) ((alive?_submit n r).symm.trans ha)
  | dropReading name =>
    exact hsilent (turns_dropReading n name) ((alive?_dropReading n name).symm.trans ha)
  | disable name => exact hsilent rfl ha
  | sweep now => exact turns_sweep h.sound now timeout hb ha
  | dropChild other => exact hsilent rfl (alive?_dropChild h.sound.inOrder ha)

/-- Only a sweep brings a child up. -/
theorem sweep_of_rise (h : n.Coherent) (timeout : Int) (c : Change)
    (hb : alive? uuid n = some false)
    (ha : alive? uuid (c.apply timeout n).1 = some true) : ∃ now, c = .sweep now := by
  have hstays : alive? uuid n ≠ some true := by
    rw [hb]
    decide
  cases c with
  | sweep now => exact ⟨now, rfl⟩
  | submit r => exact absurd ((alive?_submit n r).symm.trans ha) hstays
  | dropReading name => exact absurd ((alive?_dropReading n name).symm.trans ha) hstays
  | disable name => exact absurd ha hstays
  | dropChild other => exact absurd (alive?_dropChild h.sound.inOrder ha) hstays
  | merge incoming now =>
    have hdown : alive? uuid (n.merge incoming now).1 = some false := by
      by_cases hu : incoming.uuid = uuid
      · subst hu
        obtain ⟨c, hc, _⟩ := Option.map_eq_some_iff.mp hb
        rw [merge_changed (h.filed hc).2 (child_ne_root h hb) now]
        exact alive?_merged_of_down h now hb
      · exact (alive?_merge_of_ne h now hu).trans hb
    rw [show (Change.apply timeout (.merge incoming now) n).1 = (n.merge incoming now).1 from rfl,
      hdown] at ha
    cases ha

end Node

theorem Mesh.alive?_run_of_absent {m : Mesh} {uuid : String} (h : m.root.Coherent) {c : Change}
    (habsent : m.root.alive? uuid = none)
    (hc : ∀ incoming now, c = .merge incoming now → incoming.uuid ≠ uuid) :
    (m.run c).root.alive? uuid = none := by
  rw [run_root]
  exact Node.alive?_apply_of_absent h m.timeout habsent hc

/-! ## Runs -/

/-- The changes of a flag, given the values it has one after another. -/
def flips : List Bool → List Bool
  | before :: after :: rest => turn before after ++ flips (after :: rest)
  | _ => []

/-- Changes of a flag alternate, and the first is away from the first value. -/
theorem flips_alternate (before : Bool) (rest : List Bool) :
    (before :: flips (before :: rest)).IsChain (fun a b => a ≠ b) := by
  induction rest generalizing before with
  | nil => exact List.isChain_singleton before
  | cons after rest ih =>
    rw [flips]
    by_cases hsame : before = after
    · subst hsame
      rw [turn_self, List.nil_append]
      exact ih before
    · rw [turn, if_neg hsame, List.singleton_append]
      exact List.isChain_cons_cons.mpr ⟨hsame, ih after⟩

namespace Mesh

variable {m : Mesh}

/-- The meshes of a run, the first one included. -/
def course (m : Mesh) : List Change → List Mesh
  | [] => [m]
  | c :: rest => m :: (m.run c).course rest

/-- The events of a run in their order. -/
def events (m : Mesh) : List Change → List Event
  | [] => []
  | c :: rest => (c.apply m.timeout m.root).2 ++ (m.run c).events rest

theorem course_head (m : Mesh) (changes : List Change) :
    ∃ later, m.course changes = m :: later := by
  cases changes with
  | nil => exact ⟨[], rfl⟩
  | cons c rest => exact ⟨(m.run c).course rest, rfl⟩

theorem turns_events (h : m.Reachable) {uuid : String} {changes : List Change} {flags : List Bool}
    (hflags : (m.course changes).map (fun m => m.root.alive? uuid) = flags.map some) :
    turns uuid (m.events changes) = flips flags := by
  induction changes generalizing m flags with
  | nil =>
    cases flags with
    | nil => rfl
    | cons before rest =>
      have hrest : [] = rest.map some := (List.cons.inj hflags).2
      rw [List.map_eq_nil_iff.mp hrest.symm]
      rfl
  | cons c changes ih =>
    obtain ⟨later, hlater⟩ := course_head (m.run c) changes
    cases flags with
    | nil => cases hflags
    | cons before rest =>
      obtain ⟨hbefore, hrest⟩ := List.cons.inj hflags
      cases rest with
      | nil =>
        rw [hlater] at hrest
        cases hrest
      | cons after rest =>
        have hafter : (m.run c).root.alive? uuid = some after := by
          rw [hlater] at hrest
          exact (List.cons.inj hrest).1
        rw [run_root] at hafter
        have hstep := Node.turns_apply h.coherent m.timeout c hbefore hafter
        rw [events, turns_append, hstep, ih (.run h c) hrest, flips]

/-- Of a machine that stays a child of the root, the events of a run tell every
change of its flag and no other, so they alternate.  Only a sweep brings a machine
up.  After a sweep every child is alive or not by its date alone, which is held against
the sweep's time less the timeout as the clock's word has it, and the same sweep once
more does nothing. -/
theorem liveness_of_run (h : m.Reachable) (uuid : String) :
    (∀ (changes : List Change) (flags : List Bool),
      (m.course changes).map (fun m => m.root.alive? uuid) = flags.map some →
        turns uuid (m.events changes) = flips flags ∧
          (turns uuid (m.events changes)).IsChain (fun a b => a ≠ b)) ∧
      (∀ c, m.root.alive? uuid = some false → (m.run c).root.alive? uuid = some true →
        ∃ now, c = .sweep now) ∧
      ∀ now, (∀ e ∈ (m.run (.sweep now)).root.children,
          (e.2.isAlive = true ↔ Clock.sub now m.timeout ≤ e.2.lastUpdate) ∧
          (Clock.Says (now - m.timeout) →
            (e.2.isAlive = true ↔ now - m.timeout ≤ e.2.lastUpdate))) ∧
        (m.run (.sweep now)).events [.sweep now] = [] ∧
        (m.run (.sweep now)).run (.sweep now) = m.run (.sweep now) := by
  have hc := h.coherent
  have hagain : ∀ now, Change.apply (m.run (.sweep now)).timeout (.sweep now)
      (m.run (.sweep now)).root = ((m.run (.sweep now)).root, []) := by
    intro now
    rw [run_root, run_timeout]
    exact Node.sweep_sweep hc now m.timeout
  refine ⟨fun changes flags hflags => ?_, fun c hb ha => ?_, fun now => ⟨fun e he => ?_, ?_, ?_⟩⟩
  · have hturns := turns_events h hflags
    refine ⟨hturns, ?_⟩
    rw [hturns]
    cases flags with
    | nil => exact List.isChain_nil
    | cons before rest => exact (flips_alternate before rest).tail
  · rw [run_root] at ha
    exact Node.sweep_of_rise hc m.timeout c hb ha
  · rw [run_root] at he
    have hjudged : e.2.isAlive = true ↔ Clock.sub now m.timeout ≤ e.2.lastUpdate := by
      rw [Node.isAlive_sweep hc now m.timeout he, decide_eq_true_iff]
    exact ⟨hjudged, fun hsays => Clock.sub_eq hsays ▸ hjudged⟩
  · rw [events, hagain]
    rfl
  · exact run_of_idle (hagain now)

/-- After `crossedRun`, `b` reports while it is down, `a` reports `b` below itself,
and time passes. -/
def crossedChanges : List Change :=
  [.merge (Node.machine "b" []) 130, .sweep 130, .merge Node.crossedSnapshot 140, .sweep 300,
    .merge Node.echoedSnapshot 310, .sweep 320]

/-- At the clock's least time the deadline of a sweep is near the other end of the word. -/
theorem crossedRun_liveness :
    (crossedRun.course crossedChanges).map (fun m => m.root.alive? "b") =
        [false, false, true, true, false, false, true].map some ∧
      turns "b" (crossedRun.events crossedChanges) = [true, false, true] ∧
      (turns "b" (crossedRun.events crossedChanges)).IsChain (fun a b => a ≠ b) ∧
      ∀ e ∈ (crossedRun.run (.sweep (-0x8000000000000000))).root.children,
        e.2.isAlive = true ↔ 0x7fffffffffffffc4 ≤ e.2.lastUpdate := by
  have hflags : (crossedRun.course crossedChanges).map (fun m => m.root.alive? "b") =
      [false, false, true, true, false, false, true].map some := by decide
  obtain ⟨hturns, _, hsweep⟩ := liveness_of_run crossedRun_reachable "b"
  obtain ⟨hflips, hchain⟩ := hturns crossedChanges _ hflags
  exact ⟨hflags, hflips, hchain, fun e he => ((hsweep _).1 e he).1⟩

end Mesh
end FleetMesh
