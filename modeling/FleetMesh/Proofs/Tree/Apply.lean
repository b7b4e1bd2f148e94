/-
What every change leaves alone.

Of the root's own record a change touches the host and the probes out of service,
and nothing else (`own_changed`); so its identifier stays, and it is never down.

Of the nodes below it a change touches flags and dates.  What does not depend on
the flag is carried by everything that a change does to them: by a judged child, by
what a removal leaves, and by what a merge stores if the snapshot that it normalized
had it.  Tables in key order are such a property (`tabled_apply`).
-/
import FleetMesh.Proofs.Tree.Coherent
import FleetMesh.Proofs.Tree.Readings

namespace FleetMesh

/-- Whether a change brings only tables in key order. -/
def Change.Tabled : Change → Prop
  | .merge incoming _ => incoming.Tabled
  | _ => True

namespace Host

/-- Whether every reading is stored under its own name. -/
def SelfNamed (host : Host) : Prop := ∀ entry ∈ host.readings, entry.2.name = entry.1

theorem SelfNamed.store {host : Host} (h : host.SelfNamed) (r : Reading) :
    (host.store r).SelfNamed := by
  intro entry he
  rcases Keyed.mem_insert he with rfl | he
  · rfl
  · exact h entry he

theorem SelfNamed.drop {host : Host} (h : host.SelfNamed) (name : String) :
    (host.drop name).SelfNamed := by
  rw [Host.drop]
  split
  · exact fun entry he => h entry (Keyed.mem_of_mem_erase he)
  · exact h

theorem reading?_store (host : Host) (r : Reading) (name : String) :
    (host.store r).reading? name = if r.name = name then some r else host.reading? name :=
  Keyed.find?_insert r.name name r host.readings

theorem reading?_drop {host : Host} (h : Keyed.Ordered host.readings) (other name : String) :
    (host.drop other).reading? name = if other = name then none else host.reading? name := by
  rw [Host.drop]
  split
  · exact Keyed.find?_erase h other name
  · rename_i hno
    split
    · rename_i he
      exact he ▸ Keyed.not_contains_iff.mp hno
    · rfl

theorem SelfNamed.name_of_reading? {host : Host} (h : host.SelfNamed) {name : String} {r : Reading}
    (hr : host.reading? name = some r) : r.name = name :=
  h (name, r) (Keyed.mem_of_find? hr)

end Host

namespace Node

variable {n : Node}

/-! ## The root -/

theorem eraseAll_own (paths : List (List String)) (n : Node) :
    (n.eraseAll paths).toNodeInfo.own = n.toNodeInfo.own := by
  induction paths generalizing n with
  | nil => rfl
  | cons path paths ih => exact (ih _).trans (eraseAt_own path n)

theorem merge_own (n incoming : Node) (now : Int) :
    (n.merge incoming now).1.toNodeInfo.own = n.toNodeInfo.own := by
  by_cases hrefused : incoming.uuid = "" ∨ incoming.uuid = n.uuid
  · rw [merge_of_refused hrefused]
  obtain ⟨hid, hne⟩ := not_or.mp hrefused
  obtain ⟨events, he⟩ := merge_eq hid hne now
  rw [he, merged, rollup_own, prune_tree, eraseAll_own]
  rfl

theorem dropReading_own (n : Node) (name : String) :
    (n.dropReading name).1.toNodeInfo.own =
      { n.toNodeInfo.own with localHost := n.localHost.drop name } := by
  rw [dropReading]
  split
  · rename_i hnone
    have hdrop : n.localHost.drop name = n.localHost :=
      if_neg (Keyed.not_contains_iff.mpr hnone)
    rw [hdrop]
    rfl
  · exact rollup_own _

theorem sweep_own (n : Node) (now timeout : Int) :
    (n.sweep now timeout).1.toNodeInfo.own = n.toNodeInfo.own := by
  rcases sweep_cases n now timeout with he | he
  · rw [he]
  · rw [he, rollup_own]

theorem dropChild_own (n : Node) (uuid : String) :
    (n.dropChild uuid).toNodeInfo.own = n.toNodeInfo.own := by
  rcases dropChild_cases n uuid with he | he
  · rw [he]
  · rw [he, rollup_own, eraseAt_own]

/-- What a change makes of the root's own record. -/
theorem own_changed (timeout : Int) (c : Change) (n : Node) :
    (c.apply timeout n).1.toNodeInfo.own = { n.toNodeInfo.own with
      localHost := match c with
        | .submit r => n.localHost.store r
        | .dropReading name => n.localHost.drop name
        | _ => n.localHost
      disabled := match c with
        | .disable name => Keyed.insert name () n.disabled
        | _ => n.disabled } := by
  cases c with
  | merge incoming now => exact merge_own n incoming now
  | submit r => exact rollup_own _
  | dropReading name => exact dropReading_own n name
  | disable name => rfl
  | sweep now => exact sweep_own n now timeout
  | dropChild uuid => exact dropChild_own n uuid

theorem uuid_apply (timeout : Int) (c : Change) (n : Node) :
    (c.apply timeout n).1.uuid = n.uuid :=
  congrArg (fun info => info.uuid) (own_changed timeout c n)

theorem isAlive_apply (timeout : Int) (c : Change) (n : Node) :
    (c.apply timeout n).1.isAlive = n.isAlive :=
  congrArg (fun info => info.isAlive) (own_changed timeout c n)

theorem host_apply (timeout : Int) (c : Change) (n : Node) :
    (c.apply timeout n).1.localHost =
      match c with
      | .submit r => n.localHost.store r
      | .dropReading name => n.localHost.drop name
      | _ => n.localHost :=
  congrArg (fun info => info.localHost) (own_changed timeout c n)

theorem disabled_apply (timeout : Int) (c : Change) (n : Node) :
    (c.apply timeout n).1.disabled =
      match c with
      | .disable name => Keyed.insert name () n.disabled
      | _ => n.disabled :=
  congrArg (fun info => info.disabled) (own_changed timeout c n)

/-! ## All nodes -/

/-- A property of a node's own record without the flag. -/
def Flagless (P : Node → Prop) : Prop :=
  ∀ m' m : Node, { m'.toNodeInfo.own with isAlive := m.isAlive } = m.toNodeInfo.own → P m → P m'

variable {P : Node → Prop}

theorem Flagless.stable (hP : Flagless P) : Stable P := by
  intro m' m h
  refine hP m' m ?_
  rw [h.own]
  rfl

theorem Steady.flagless (hP : Steady P) : Flagless P := fun m' m h =>
  hP m' m ⟨congrArg (fun info => info.uuid) h, congrArg (fun info => info.localHost.readings) h,
    congrArg (fun info => info.lastUpdate) h, congrArg (fun info => info.disabled) h⟩

theorem Everywhere.judge (hP : Flagless P) {child : Node} (h : child.Everywhere P)
    (deadline : Int) : (child.judge deadline).1.Everywhere P := by
  rcases judge_cases deadline child with he | ⟨alive, he⟩
  · rw [he]
    exact h
  · have hflag : P { child with isAlive := alive } := hP _ child rfl (everywhere_iff.mp h).1
    rw [he]
    exact Everywhere.rollup hP.stable (h.root hflag rfl)

theorem Everywhere.sweep (hP : Flagless P) (h : n.Everywhere P) (now timeout : Int) :
    (n.sweep now timeout).1.Everywhere P := by
  obtain ⟨hroot, hchildren⟩ := everywhere_iff.mp h
  rcases sweep_cases n now timeout with he | he
  · rw [he]
    exact h
  · rw [he]
    refine Everywhere.rollup hP.stable (everywhere_iff.mpr ⟨hP _ n rfl hroot, fun e he => ?_⟩)
    obtain ⟨d, hd, rfl⟩ := List.mem_map.mp he
    exact (hchildren d hd).judge hP _

theorem Everywhere.dropChild (hP : Flagless P) (h : n.Everywhere P) (uuid : String) :
    (n.dropChild uuid).Everywhere P := by
  rcases dropChild_cases n uuid with he | he
  · rw [he]
    exact h
  · rw [he]
    exact (h.eraseAt hP.stable [uuid]).rollup hP.stable

/-- A merge dates the snapshot, so of the property it is asked that the date has it too. -/
theorem Everywhere.merge (hP : Flagless P) (h : n.Everywhere P) {incoming : Node}
    (hs : incoming.normalize.Everywhere P) {now : Int}
    (hdate : P { incoming.normalize with lastUpdate := now }) :
    (n.merge incoming now).1.Everywhere P := by
  by_cases hrefused : incoming.uuid = "" ∨ incoming.uuid = n.uuid
  · rw [merge_of_refused hrefused]
    exact h
  obtain ⟨hid, hne⟩ := not_or.mp hrefused
  obtain ⟨events, he⟩ := merge_eq hid hne now
  have hreceived : (received incoming (Keyed.find? incoming.uuid n.children) now).Everywhere P :=
    hs.root (hP _ { incoming.normalize with lastUpdate := now } rfl hdate) rfl
  have hplaced : (placed n incoming now).Everywhere P :=
    Everywhere.setChild h hreceived (hP _ n rfl (everywhere_iff.mp h).1)
  rw [he, merged, prune_tree]
  exact (hplaced.eraseAll hP.stable _).rollup hP.stable

/-! ## Tables in key order -/

theorem flagless_tabled : Flagless (fun m => Keyed.Ordered m.localHost.readings) :=
  steady_tabled.flagless

theorem tabled_submit (h : n.Tabled) (r : Reading) : (n.submit r).1.Tabled :=
  Everywhere.rollup flagless_tabled.stable
    (Everywhere.root h (Keyed.ordered_insert h.root r.name r) rfl)

theorem ordered_drop {host : Host} (h : Keyed.Ordered host.readings) (name : String) :
    Keyed.Ordered (host.drop name).readings := by
  rw [Host.drop]
  split
  · exact Keyed.ordered_erase h name
  · exact h

/-- The root's own table stays in key order, whatever is merged. -/
theorem ordered_readings_apply (h : Keyed.Ordered n.localHost.readings) (timeout : Int)
    (c : Change) : Keyed.Ordered (c.apply timeout n).1.localHost.readings := by
  rw [host_apply]
  cases c with
  | submit r => exact Keyed.ordered_insert h r.name r
  | dropReading name => exact ordered_drop h name
  | merge => exact h
  | disable => exact h
  | sweep => exact h
  | dropChild => exact h

/-- The root's own readings stay under their own names. -/
theorem selfNamed_apply (h : n.localHost.SelfNamed) (timeout : Int) (c : Change) :
    (c.apply timeout n).1.localHost.SelfNamed := by
  rw [host_apply]
  cases c with
  | submit r => exact h.store r
  | dropReading name => exact h.drop name
  | merge => exact h
  | disable => exact h
  | sweep => exact h
  | dropChild => exact h

theorem tabled_dropReading (h : n.Tabled) (name : String) : (n.dropReading name).1.Tabled := by
  rw [dropReading]
  split
  · exact h
  · exact Everywhere.rollup flagless_tabled.stable
      (Everywhere.root h (ordered_drop h.root name) rfl)

/-- A tree whose tables are in key order keeps them so if what is merged into it has them so. -/
theorem tabled_apply (h : n.Tabled) (timeout : Int) {c : Change}
    (hc : c.Tabled) : (c.apply timeout n).1.Tabled := by
  cases c with
  | merge incoming now =>
    have hs : incoming.normalize.Tabled := tabled_normalize hc
    exact Everywhere.merge flagless_tabled h hs hs.root
  | submit r => exact tabled_submit h r
  | dropReading name => exact tabled_dropReading h name
  | disable name => exact Everywhere.root h h.root rfl
  | sweep now => exact Everywhere.sweep flagless_tabled h now timeout
  | dropChild uuid => exact Everywhere.dropChild flagless_tabled h uuid

theorem tabled_new (uuid hostname group : String) (now : Int) :
    (Node.new uuid hostname group now).Tabled :=
  Everywhere.rollup flagless_tabled.stable
    (everywhere_iff.mpr ⟨List.Pairwise.nil, fun _ he => absurd he List.not_mem_nil⟩)

end Node
end FleetMesh
