/-
What a sweep decides.

A child is alive after a sweep if its snapshot is not older than the deadline,
whatever it was before (`own?_sweep_child`), and the events of the sweep are the
turns of the flags that moved (`turns_sweep`).  A second sweep at the same time
finds every child as it would make it (`sweep_sweep`).
-/
import FleetMesh.Proofs.Diff
import FleetMesh.Proofs.Tree.Coherent

namespace FleetMesh
namespace Node

open Event (turns)

variable {n : Node} {uuid key : String} {deadline now timeout : Int}

/-- Whether the child of that name is alive, if there is one. -/
def alive? (uuid : String) (n : Node) : Option Bool :=
  (Keyed.find? uuid n.children).map (fun c => c.isAlive)

theorem alive?_eq_own? (uuid : String) (n : Node) :
    alive? uuid n = (own? [uuid] n).map (fun info => info.isAlive) := by
  rw [alive?, own?_cons]
  cases Keyed.find? uuid n.children <;> rfl

/-! ## One child -/

/-- A child with what a sweep makes of it and what it says of it. -/
inductive Verdict (deadline : Int) (c : Node) : Node × List Event → Prop
  | stays (h : c.isAlive = decide (deadline ≤ c.lastUpdate)) : Verdict deadline c (c, [])
  | falls (h : c.isAlive = true) (hstale : c.lastUpdate < deadline) :
    Verdict deadline c
      (rollup { c with isAlive := false }, [.nodeDown c.uuid c.hostname c.globalMessage])
  | rises (h : c.isAlive = false) (hfresh : deadline ≤ c.lastUpdate) :
    Verdict deadline c (rollup { c with isAlive := true }, [.nodeUp c.uuid c.hostname])

theorem judge_verdict (deadline : Int) (c : Node) : Verdict deadline c (c.judge deadline) := by
  cases halive : c.isAlive <;> by_cases hstale : c.lastUpdate < deadline
  · have hjudge : c.judge deadline = (c, []) := by simp [judge, halive, hstale]
    rw [hjudge]
    exact .stays (by rw [halive, decide_eq_false (Int.not_le.mpr hstale)])
  · have hjudge : c.judge deadline
        = (rollup { c with isAlive := true }, [.nodeUp c.uuid c.hostname]) := by
      simp [judge, halive, hstale, markUp, rollup_eq, rate]
    rw [hjudge]
    exact .rises halive (Int.not_lt.mp hstale)
  · have hjudge : c.judge deadline
        = (rollup { c with isAlive := false }, [.nodeDown c.uuid c.hostname c.globalMessage]) := by
      simp [judge, halive, hstale, markDown, rollup_eq, rate]
    rw [hjudge]
    exact .falls halive hstale
  · have hjudge : c.judge deadline = (c, []) := by simp [judge, halive, hstale]
    rw [hjudge]
    exact .stays (by rw [halive, decide_eq_true (Int.not_lt.mp hstale)])

theorem Verdict.own {c : Node} {r : Node × List Event} (h : Verdict deadline c r) :
    r.1.toNodeInfo.own = { c.toNodeInfo.own with isAlive := decide (deadline ≤ c.lastUpdate) } := by
  cases h with
  | stays h =>
    rw [← h]
    rfl
  | falls h hstale =>
    rw [rollup_own, decide_eq_false (Int.not_le.mpr hstale)]
    rfl
  | rises h hfresh =>
    rw [rollup_own, decide_eq_true hfresh]
    rfl

theorem Verdict.turns {c : Node} {r : Node × List Event} (h : Verdict deadline c r) :
    turns uuid r.2 =
      if c.uuid = uuid then turn c.isAlive (decide (deadline ≤ c.lastUpdate)) else [] := by
  by_cases hid : c.uuid = uuid
  · rw [if_pos hid]
    cases h with
    | stays h => rw [h, turn_self]; rfl
    | falls h hstale =>
      rw [h, decide_eq_false (Int.not_le.mpr hstale)]
      simp [Event.turns, Event.turn?, hid, turn]
    | rises h hfresh =>
      rw [h, decide_eq_true hfresh]
      simp [Event.turns, Event.turn?, hid, turn]
  · rw [if_neg hid]
    cases h <;> simp [Event.turns, Event.turn?, hid]

/-- A child that is as its date says is left alone. -/
theorem Verdict.idle_iff {c : Node} {r : Node × List Event} (h : Verdict deadline c r) :
    r.2 = [] ↔ c.isAlive = decide (deadline ≤ c.lastUpdate) := by
  cases h with
  | stays h => exact ⟨fun _ => h, fun _ => rfl⟩
  | falls h hstale =>
    rw [h, decide_eq_false (Int.not_le.mpr hstale)]
    simp
  | rises h hfresh =>
    rw [h, decide_eq_true hfresh]
    simp

/-! ## All children -/

theorem judgeAll_events (deadline : Int) (children : List (String × Node)) :
    (judgeAll deadline children).2 = children.flatMap (fun e => (e.2.judge deadline).2) := by
  induction children with
  | nil => rfl
  | cons e rest ih =>
    obtain ⟨key, child⟩ := e
    show (judge deadline child).2 ++ (judgeAll deadline rest).2 = _
    rw [ih, List.flatMap_cons]

theorem sweep_eq (n : Node) (now timeout : Int) :
    n.sweep now timeout =
      if n.children.flatMap (fun e => (e.2.judge (Clock.sub now timeout)).2) = [] then (n, [])
      else
        (rollup ⟨n.toNodeInfo,
            Keyed.mapValues (fun child => (child.judge (Clock.sub now timeout)).1) n.children⟩,
          n.children.flatMap (fun e => (e.2.judge (Clock.sub now timeout)).2)) := by
  rw [← judgeAll_events, ← judgeAll_children, sweep]
  simp only [List.isEmpty_iff]

theorem sweep_events (n : Node) (now timeout : Int) :
    (n.sweep now timeout).2 =
      n.children.flatMap (fun e => (e.2.judge (Clock.sub now timeout)).2) := by
  rw [sweep_eq]
  split
  · rename_i h
    exact h.symm
  · rfl

/-- A sweep sets the flag of every child by its date. -/
theorem own?_sweep_child (n : Node) (now timeout : Int) (key : String) :
    own? [key] (n.sweep now timeout).1 =
      (own? [key] n).map (fun info =>
        { info with isAlive := decide (Clock.sub now timeout ≤ info.lastUpdate) }) := by
  rw [own?_cons, own?_cons, sweep_eq]
  split
  · rename_i hidle
    dsimp only
    cases hfind : Keyed.find? key n.children with
    | none => rfl
    | some c =>
      have hquiet := List.flatMap_eq_nil_iff.mp hidle _ (Keyed.mem_of_find? hfind)
      have hstays := (judge_verdict (Clock.sub now timeout) c).idle_iff.mp hquiet
      show some c.toNodeInfo.own = some { c.toNodeInfo.own with
        isAlive := decide (Clock.sub now timeout ≤ c.lastUpdate) }
      rw [← hstays]
      rfl
  · rw [rollup_children, Keyed.find?_mapValues, Keyed.find?_mapValues]
    cases Keyed.find? key n.children with
    | none => rfl
    | some c =>
      show some (rollup (c.judge (Clock.sub now timeout)).1).toNodeInfo.own = _
      rw [rollup_own, (judge_verdict (Clock.sub now timeout) c).own]
      rfl

theorem alive?_sweep (n : Node) (now timeout : Int) (uuid : String) :
    alive? uuid (n.sweep now timeout).1 =
      (own? [uuid] n).map (fun info => decide (Clock.sub now timeout ≤ info.lastUpdate)) := by
  rw [alive?_eq_own?, own?_sweep_child, Option.map_map]
  rfl

theorem isAlive_sweep (h : n.Coherent) (now timeout : Int) {e : String × Node}
    (he : e ∈ (n.sweep now timeout).1.children) :
    e.2.isAlive = decide (Clock.sub now timeout ≤ e.2.lastUpdate) := by
  have hordered := (coherent_sweep h now timeout).sound.inOrder.ordered
  have hfind : Keyed.find? e.1 (n.sweep now timeout).1.children = some e.2 :=
    Keyed.find?_of_mem hordered he
  have hown := own?_sweep_child n now timeout e.1
  rw [own?_cons, hfind] at hown
  obtain ⟨info, _, hinfo⟩ := Option.map_eq_some_iff.mp hown.symm
  have halive := congrArg (fun i : NodeInfo => i.isAlive) hinfo
  have hdate := congrArg (fun i : NodeInfo => i.lastUpdate) hinfo
  dsimp only [NodeInfo.own] at halive hdate
  rw [← halive, hdate]

/-- The events of a sweep turn a child as its flag turned. -/
theorem turns_sweep (hn : n.Everywhere Sound) (now timeout : Int) {before after : Bool}
    (hbefore : alive? uuid n = some before)
    (hafter : alive? uuid (n.sweep now timeout).1 = some after) :
    turns uuid (n.sweep now timeout).2 = turn before after := by
  obtain ⟨c, hc, rfl⟩ := Option.map_eq_some_iff.mp hbefore
  have hfresh : decide (Clock.sub now timeout ≤ c.lastUpdate) = after := by
    rw [alive?_sweep, own?_cons, hc] at hafter
    exact Option.some.inj hafter
  have hroot := (everywhere_iff.mp hn).1
  have hchild : ∀ e ∈ n.children, turns uuid (e.2.judge (Clock.sub now timeout)).2 =
      if e.1 = uuid then turn e.2.isAlive (decide (Clock.sub now timeout ≤ e.2.lastUpdate))
      else [] := by
    intro e he
    rw [(hroot.filed e he).1]
    exact (judge_verdict (Clock.sub now timeout) e.2).turns
  rw [sweep_events, turns_flatMap, List.flatMap_congr hchild,
    Keyed.flatMap_key hroot.ordered uuid
      (fun c => turn c.isAlive (decide (Clock.sub now timeout ≤ c.lastUpdate))), hc, ← hfresh]
  rfl

/-- After a sweep the next one at the same time has nothing to do. -/
theorem sweep_sweep (h : n.Coherent) (now timeout : Int) :
    (n.sweep now timeout).1.sweep now timeout = ((n.sweep now timeout).1, []) := by
  rw [sweep_eq (n.sweep now timeout).1]
  refine if_pos (List.flatMap_eq_nil_iff.mpr fun e he => ?_)
  exact (judge_verdict (Clock.sub now timeout) e.2).idle_iff.mpr (isAlive_sweep h now timeout he)

end Node
end FleetMesh
