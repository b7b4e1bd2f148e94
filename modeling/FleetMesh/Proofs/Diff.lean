/-
What the events between two snapshots say.

A snapshot does not differ from itself, nor from itself at another date
(`diff_dated`).

Of the liveness of one machine the events say as much as there is to say.  They
carry the identifiers of the newer snapshot, so they turn a machine up or down
only if that snapshot has it (`turns_diff_of_absent`), and if it stands at the top
and nowhere else they are the change of its flag (`turns_diff`).
-/
import FleetMesh.Node.Diff
import FleetMesh.Proofs.Tree.Readings

namespace FleetMesh

/-! ## Turns -/

/-- Whether an event says that a machine is up, or down. -/
def Event.turn? (uuid : String) : Event → Option Bool
  | nodeUp id _ => if id = uuid then some true else none
  | nodeDown id _ _ => if id = uuid then some false else none
  | _ => none

/-- What some events say of a machine's liveness, in their order. -/
def Event.turns (uuid : String) (events : List Event) : List Bool :=
  events.filterMap (turn? uuid)

/-- The turn that a flag takes, if it takes one. -/
def turn (before after : Bool) : List Bool := if before = after then [] else [after]

open Event (turns)

theorem turn_self (b : Bool) : turn b b = [] := if_pos rfl

theorem turns_append (uuid : String) (a b : List Event) :
    turns uuid (a ++ b) = turns uuid a ++ turns uuid b :=
  List.filterMap_append

theorem turns_flatMap {α : Type} (uuid : String) (l : List α) (f : α → List Event) :
    turns uuid (l.flatMap f) = l.flatMap (fun a => turns uuid (f a)) :=
  List.filterMap_flatMap

theorem turns_eq_nil {uuid : String} {events : List Event} :
    turns uuid events = [] ↔ ∀ e ∈ events, e.turn? uuid = none :=
  List.filterMap_eq_nil_iff

namespace Node

variable {uuid : String}

/-! ## The recursion -/

theorem diffChildren_eq (children newer : List (String × Node)) :
    diffChildren children newer = children.flatMap (fun e =>
      match Keyed.find? e.1 newer with
      | some latest => diff e.2 latest
      | none => []) := by
  induction children with
  | nil => rfl
  | cons e rest ih =>
    obtain ⟨key, child⟩ := e
    rw [List.flatMap_cons, ← ih]
    rfl

theorem diff_eq (old new : Node) :
    diff old new =
      if old.isAlive && !new.isAlive then [.nodeDown new.uuid new.hostname new.globalMessage]
      else
        let below := diffReadings old.toNodeInfo new.toNodeInfo
          ++ diffChildren old.children new.children
        if !old.isAlive && new.isAlive then .nodeUp new.uuid new.hostname :: below
        else if below.isEmpty then diffStatus old.toNodeInfo new.toNodeInfo
        else below := by
  obtain ⟨info, children⟩ := old
  rw [diff]

/-- What is said of the children is said of a child that both snapshots have. -/
theorem mem_diffChildren {children newer : List (String × Node)} {event : Event} :
    event ∈ diffChildren children newer ↔
      ∃ e ∈ children, ∃ latest, Keyed.find? e.1 newer = some latest ∧ event ∈ diff e.2 latest := by
  rw [diffChildren_eq, List.mem_flatMap]
  refine exists_congr fun e => and_congr_right fun _ => ?_
  cases Keyed.find? e.1 newer with
  | none => simp
  | some latest => simp

/-! ## Silence -/

/-- Nothing is told of readings that stayed. -/
theorem diffReadings_of_same {old new : NodeInfo} (h : Keyed.Ordered old.localHost.readings)
    (hsame : new.localHost.readings = old.localHost.readings) : diffReadings old new = [] := by
  have holder : diffOlder old new = [] := by
    refine List.flatMap_eq_nil_iff.mpr fun e he => ?_
    have hfind : new.localHost.reading? e.1 = some e.2 := by
      rw [Host.reading?, hsame]
      exact Keyed.find?_of_mem h he
    dsimp only
    rw [hfind]
    exact if_pos rfl
  have hnewer : diffNewer old new = [] := by
    rw [diffNewer, hsame]
    split
    · refine List.flatMap_eq_nil_iff.mpr fun e he => ?_
      exact if_pos (Keyed.contains_iff.mpr ⟨e.2, Keyed.find?_of_mem h he⟩)
    · rfl
  rw [diffReadings, holder, hnewer]
  rfl

theorem diffStatus_self (info : NodeInfo) : diffStatus info info = [] := if_pos rfl

theorem diffChildren_of_silent {n : Node} (hn : n.InOrder)
    (h : ∀ e ∈ n.children, diff e.2 e.2 = []) : diffChildren n.children n.children = [] := by
  refine List.eq_nil_iff_forall_not_mem.mpr fun event hevent => ?_
  obtain ⟨e, he, latest, hfind, hevent⟩ := mem_diffChildren.mp hevent
  obtain rfl := Option.some.inj ((Keyed.find?_of_mem hn.ordered he).symm.trans hfind)
  rw [h e he] at hevent
  exact List.not_mem_nil hevent

/-- A tree does not differ from itself. -/
theorem diff_self {n : Node} (hn : n.InOrder) (ht : n.Tabled) : diff n n = [] := by
  induction n using induct with
  | step n ih =>
    have hchildren := diffChildren_of_silent hn fun e he =>
      ih e he ((everywhere_iff.mp hn).2 e he) ((everywhere_iff.mp ht).2 e he)
    rw [diff_eq, diffReadings_of_same ht.root rfl, hchildren, diffStatus_self]
    cases n.isAlive <;> rfl

theorem diffChildren_self {n : Node} (hn : n.InOrder) (ht : n.Tabled) :
    diffChildren n.children n.children = [] :=
  diffChildren_of_silent hn fun e he =>
    diff_self ((everywhere_iff.mp hn).2 e he) ((everywhere_iff.mp ht).2 e he)

/-- Nor does it from itself at another date. -/
theorem diff_dated {n : Node} (hn : n.InOrder) (ht : n.Tabled) (date : Int) :
    diff n { n with lastUpdate := date } = [] := by
  have hsame : diff n { n with lastUpdate := date } = diff n n := by
    rw [diff_eq, diff_eq]
    rfl
  rw [hsame, diff_self hn ht]

/-! ## Liveness -/

theorem turns_diffReadings (old new : NodeInfo) : turns uuid (diffReadings old new) = [] := by
  refine turns_eq_nil.mpr fun event hevent => ?_
  rw [diffReadings, List.mem_append] at hevent
  rcases hevent with hevent | hevent
  · obtain ⟨e, _, hevent⟩ := List.mem_flatMap.mp hevent
    dsimp only at hevent
    split at hevent
    · obtain ⟨-, hevent⟩ := List.mem_ite_nil_left.mp hevent
      obtain rfl := List.mem_singleton.mp hevent
      rfl
    · obtain ⟨-, hevent⟩ := List.mem_ite_nil_right.mp hevent
      obtain rfl := List.mem_singleton.mp hevent
      rfl
  · obtain ⟨-, hevent⟩ := List.mem_ite_nil_right.mp hevent
    obtain ⟨e, _, hevent⟩ := List.mem_flatMap.mp hevent
    obtain ⟨-, hevent⟩ := List.mem_ite_nil_left.mp hevent
    obtain rfl := List.mem_singleton.mp hevent
    rfl

theorem turns_diffStatus (old new : NodeInfo) : turns uuid (diffStatus old new) = [] := by
  rw [diffStatus]
  split <;> rfl

/-- What is said of a node's readings and children turns a machine only where a
child does. -/
theorem turns_below (uuid : String) (old new : Node)
    (h : ∀ e ∈ old.children, ∀ latest, Keyed.find? e.1 new.children = some latest →
      turns uuid (diff e.2 latest) = []) :
    turns uuid (diffReadings old.toNodeInfo new.toNodeInfo
      ++ diffChildren old.children new.children) = [] := by
  rw [turns_append, turns_diffReadings, List.nil_append]
  refine turns_eq_nil.mpr fun event hevent => ?_
  obtain ⟨e, he, latest, hfind, hevent⟩ := mem_diffChildren.mp hevent
  exact turns_eq_nil.mp (h e he latest hfind) event hevent

/-- Events turn no machine that the newer snapshot does not have. -/
theorem turns_diff_of_absent {old new : Node} (h : ∀ p, uuid? p new ≠ some uuid) :
    turns uuid (diff old new) = [] := by
  induction old using induct generalizing new with
  | step old ih =>
    have hid : new.uuid ≠ uuid := fun e => h [] (congrArg some e)
    have hbelow := turns_below uuid old new fun e he latest hfind =>
      ih e he fun p hp => h (e.1 :: p) (by rw [uuid?_cons, hfind]; exact hp)
    have hup : Event.turn? uuid (.nodeUp new.uuid new.hostname) = none := if_neg hid
    have hdown : Event.turn? uuid (.nodeDown new.uuid new.hostname new.globalMessage) = none :=
      if_neg hid
    rw [diff_eq]
    dsimp only
    split
    · exact turns_eq_nil.mpr fun e he => List.mem_singleton.mp he ▸ hdown
    · split
      · rw [turns, List.filterMap_cons_none hup]
        exact hbelow
      · split
        · exact turns_diffStatus _ _
        · exact hbelow

/-- Of a machine that stands at the top and nowhere below, events say how its flag
changed. -/
theorem turns_diff {old new : Node} (hid : new.uuid = uuid)
    (h : ∀ p, p ≠ [] → uuid? p new ≠ some uuid) :
    turns uuid (diff old new) = turn old.isAlive new.isAlive := by
  have hbelow := turns_below uuid old new fun e _ latest hfind =>
    turns_diff_of_absent fun p hp => h (e.1 :: p) (List.cons_ne_nil _ _)
      (by rw [uuid?_cons, hfind]; exact hp)
  have hup : Event.turn? uuid (.nodeUp new.uuid new.hostname) = some true := if_pos hid
  have hdown : Event.turn? uuid (.nodeDown new.uuid new.hostname new.globalMessage) = some false :=
    if_pos hid
  rw [diff_eq]
  dsimp only
  cases hold : old.isAlive <;> cases hnew : new.isAlive
  · simp only [Bool.false_and, Bool.not_false, Bool.and_false, Bool.false_eq_true, if_false]
    split
    · exact turns_diffStatus _ _
    · exact hbelow
  · simp only [Bool.not_true, Bool.and_false, Bool.not_false, Bool.and_true, Bool.false_eq_true,
      if_false, if_true]
    rw [turns, List.filterMap_cons_some hup]
    exact congrArg (List.cons true) hbelow
  · simp only [Bool.not_false, Bool.and_true, if_true]
    rw [turns, List.filterMap_cons_some hdown]
    rfl
  · simp only [Bool.not_true, Bool.and_false, Bool.false_and, Bool.false_eq_true, if_false]
    split
    · exact turns_diffStatus _ _
    · exact hbelow

end Node
end FleetMesh
