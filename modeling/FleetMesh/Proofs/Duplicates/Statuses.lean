/-
Statuses after a search for duplicates.

Pruning removes subtrees and says nothing new of what is left (`info?_prune`).  So in a
tree that was rated a status that is left is not too low, but it may be the status of a
child that is gone.  It is not if the node has it by itself, or by a child that stays
(`Upheld`), and the tree is rated after pruning exactly if this is so at every node that
is left.

`CarriedOver` says so, and that a rollup mends the rest.  A merge rolls up the tree that it
has pruned; `prune` by itself does not, and then a tree that was rated need not be rated
any more (`echoedTree_unrated`).
-/
import FleetMesh.Proofs.Duplicates.Merge

namespace FleetMesh
namespace Node

/-- Whether the status of the node at `p` is its own or that of a child that is not
removed. -/
def Upheld (newcomer : Option String) (n : Node) (p : List String) (m : Node) : Prop :=
  localStatus m.toNodeInfo = m.globalStatus ∨
    ∃ key c, Keyed.find? key m.children = some c ∧ c.globalStatus = m.globalStatus ∧
      ¬ Pruned newcomer n (p ++ [key])

/-- What becomes of the statuses of a rated tree `n` when it is pruned. -/
structure CarriedOver (newcomer : Option String) (n after : Node) : Prop where
  /-- What is left keeps its record, the global status too. -/
  records : ∀ p, (Survives newcomer n p → info? p after = info? p n) ∧
    (¬ Survives newcomer n p → info? p after = none)
  rated : after.Everywhere Rated ↔
    ∀ p m, Survives newcomer n p → at? p n = some m → Upheld newcomer n p m
  /-- Only a node that lost a child can be left with a status that is not its own. -/
  unrated : ∀ p m, at? p after = some m → ¬ Rated m → ∃ key, Pruned newcomer n (p ++ [key])
  /-- A rollup makes it rated again, and no status worse. -/
  mended : after.rollup.Everywhere Rated ∧ ∀ p m, at? p after = some m →
    at? p after.rollup = some m.rollup ∧ m.rollup.toNodeInfo.own = m.toNodeInfo.own ∧
      m.rollup.globalStatus ≤ m.globalStatus

variable {newcomer : Option String} {n m m' : Node} {p : List String} {key : String}

/-! ## Statuses that are not too low -/

/-- Whether nothing at the node or right below it is worse than its global status. -/
def Covered (n : Node) : Prop :=
  localStatus n.toNodeInfo ≤ n.globalStatus ∧ ∀ e ∈ n.children, e.2.globalStatus ≤ n.globalStatus

/-- A rated node is covered, and has its status from itself or from a child. -/
theorem rated_iff : Rated n ↔ n.Covered ∧
    (localStatus n.toNodeInfo = n.globalStatus ∨
      ∃ e ∈ n.children, e.2.globalStatus = n.globalStatus) := by
  rw [Rated, List.max?_eq_some_iff, List.mem_cons, List.mem_map, List.forall_mem_cons,
    List.forall_mem_map, and_comm, eq_comm (a := n.globalStatus)]
  rfl

theorem globalStatus_rollup_le (h : n.Everywhere Covered) :
    n.rollup.globalStatus ≤ n.globalStatus := by
  induction n using induct with
  | step n ih =>
    obtain ⟨⟨hlocal, hchildren⟩, hbelow⟩ := everywhere_iff.mp h
    have hrated : Rated n.rollup := (everywhere_iff.mp (rated_rollup n)).1
    obtain ⟨_, hown | ⟨e, he, hstatus⟩⟩ := rated_iff.mp hrated
    · rw [← hown, rollup_eq]
      exact hlocal
    · rw [rollup_children, Keyed.mapValues, List.mem_map] at he
      obtain ⟨d, hd, rfl⟩ := he
      rw [← hstatus]
      exact Int.le_trans (ih d hd (hbelow d hd)) (hchildren d hd)

/-! ## One node -/

theorem info?_child (h : at? p n = some m) (key : String) :
    info? (p ++ [key]) n = (Keyed.find? key m.children).map (fun c => c.toNodeInfo) := by
  rw [info?, at?_append, h, Option.bind_some, at?_cons]
  cases Keyed.find? key m.children <;> rfl

/-- A node that is left is one that was there, with the record it had. -/
theorem at?_prune (hn : n.InOrder) (h : at? p (n.prune newcomer).1 = some m') :
    Survives newcomer n p ∧ ∃ m, at? p n = some m ∧ m.toNodeInfo = m'.toNodeInfo := by
  have hinfo : info? p (n.prune newcomer).1 = some m'.toNodeInfo := congrArg (Option.map _) h
  obtain ⟨hinfo, hp⟩ := (info?_prune_eq_some hn).mp hinfo
  exact ⟨hp, Option.map_eq_some_iff.mp hinfo⟩

/-- Of the children of a node that is left those are left that are not removed themselves. -/
theorem find?_prune (hn : n.InOrder) (h : at? p n = some m)
    (h' : at? p (n.prune newcomer).1 = some m') (key : String) (info : NodeInfo) :
    (Keyed.find? key m'.children).map (fun c => c.toNodeInfo) = some info ↔
      (Keyed.find? key m.children).map (fun c => c.toNodeInfo) = some info ∧
        ¬ Pruned newcomer n (p ++ [key]) := by
  have hkey : Survives newcomer n (p ++ [key]) ↔ ¬ Pruned newcomer n (p ++ [key]) := by
    rw [survives_iff, clear_append]
    exact and_iff_right (survives_iff.mp (at?_prune hn h').1)
  rw [← info?_child h, ← info?_child h', info?_prune_eq_some hn, hkey]

theorem child_of_left (hn : n.InOrder) (h : at? p n = some m)
    (h' : at? p (n.prune newcomer).1 = some m') {e : String × Node} (he : e ∈ m'.children) :
    ∃ c, Keyed.find? e.1 m.children = some c ∧ c.toNodeInfo = e.2.toNodeInfo ∧
      ¬ Pruned newcomer n (p ++ [e.1]) := by
  have hord : Keyed.Ordered m'.children :=
    InOrder.ordered (Everywhere.at? (inOrder_prune hn newcomer) h')
  have hfind : (Keyed.find? e.1 m'.children).map (fun c => c.toNodeInfo) = some e.2.toNodeInfo :=
    congrArg (Option.map _) (Keyed.find?_of_mem hord he)
  obtain ⟨hfind, hp⟩ := (find?_prune hn h h' e.1 _).mp hfind
  obtain ⟨c, hc, hinfo⟩ := Option.map_eq_some_iff.mp hfind
  exact ⟨c, hc, hinfo, hp⟩

theorem left_of_child (hn : n.InOrder) (h : at? p n = some m)
    (h' : at? p (n.prune newcomer).1 = some m') {c : Node}
    (hc : Keyed.find? key m.children = some c) (hp : ¬ Pruned newcomer n (p ++ [key])) :
    ∃ e ∈ m'.children, e.2.toNodeInfo = c.toNodeInfo := by
  have hfind : (Keyed.find? key m.children).map (fun c => c.toNodeInfo) = some c.toNodeInfo :=
    congrArg (Option.map _) hc
  obtain ⟨c', hc', hinfo⟩ := Option.map_eq_some_iff.mp ((find?_prune hn h h' key _).mpr ⟨hfind, hp⟩)
  exact ⟨(key, c'), Keyed.mem_of_find? hc', hinfo⟩

/-! ## The tree -/

theorem covered_prune (hn : n.InOrder) (hr : Rated m) (h : at? p n = some m)
    (h' : at? p (n.prune newcomer).1 = some m') : m'.Covered := by
  obtain ⟨_, k, hk, hinfo⟩ := at?_prune hn h'
  obtain rfl := Option.some.inj (hk.symm.trans h)
  obtain ⟨hlocal, hchildren⟩ := (rated_iff.mp hr).1
  rw [Covered, ← hinfo]
  refine ⟨hlocal, fun e he => ?_⟩
  obtain ⟨c, hc, hsame, _⟩ := child_of_left hn h h' he
  rw [← hsame]
  exact hchildren _ (Keyed.mem_of_find? hc)

/-- A node that is left is rated if its status is upheld. -/
theorem rated_prune_iff (hn : n.InOrder) (hr : Rated m) (h : at? p n = some m)
    (h' : at? p (n.prune newcomer).1 = some m') : Rated m' ↔ Upheld newcomer n p m := by
  obtain ⟨_, k, hk, hinfo⟩ := at?_prune hn h'
  obtain rfl := Option.some.inj (hk.symm.trans h)
  rw [rated_iff, and_iff_right (covered_prune hn hr h h'), Upheld, ← hinfo]
  refine or_congr_right ⟨fun hchild => ?_, fun hchild => ?_⟩
  · obtain ⟨e, he, hstatus⟩ := hchild
    obtain ⟨c, hc, hsame, hp⟩ := child_of_left hn h h' he
    exact ⟨e.1, c, hc, (congrArg NodeInfo.globalStatus hsame).trans hstatus, hp⟩
  · obtain ⟨key, c, hc, hstatus, hp⟩ := hchild
    obtain ⟨e, he, hsame⟩ := left_of_child hn h h' hc hp
    exact ⟨e, he, (congrArg NodeInfo.globalStatus hsame).trans hstatus⟩

/-- The status of a rated node is upheld as long as no child of it is removed. -/
theorem upheld_of_rated (hr : Rated m) (hord : Keyed.Ordered m.children)
    (hp : ∀ key, ¬ Pruned newcomer n (p ++ [key])) : Upheld newcomer n p m := by
  refine (rated_iff.mp hr).2.imp_right fun hchild => ?_
  obtain ⟨e, he, hstatus⟩ := hchild
  exact ⟨e.1, e.2, Keyed.find?_of_mem hord he, hstatus, hp e.1⟩

theorem rated_at? (h : n.Everywhere Rated) (hm : at? p n = some m) : Rated m :=
  (everywhere_iff.mp (Everywhere.at? h hm)).1

theorem everywhere_covered_prune (hn : n.InOrder) (h : n.Everywhere Rated)
    (newcomer : Option String) : (n.prune newcomer).1.Everywhere Covered := by
  intro m' hm'
  obtain ⟨p, hp⟩ := (mem_subtree_iff (inOrder_prune hn newcomer)).mp hm'
  obtain ⟨_, m, hm, _⟩ := at?_prune hn hp
  exact covered_prune hn (rated_at? h hm) hm hp

theorem everywhere_rated_prune_iff (hn : n.InOrder) (h : n.Everywhere Rated) :
    (n.prune newcomer).1.Everywhere Rated ↔
      ∀ p m, Survives newcomer n p → at? p n = some m → Upheld newcomer n p m := by
  have hord := inOrder_prune hn newcomer
  constructor
  · intro hall p m hp hm
    obtain ⟨m', hm', _⟩ := Option.map_eq_some_iff.mp
      ((info?_prune_eq_some hn).mpr ⟨congrArg (Option.map _) hm, hp⟩)
    exact (rated_prune_iff hn (rated_at? h hm) hm hm').mp
      (hall m' ((mem_subtree_iff hord).mpr ⟨p, hm'⟩))
  · intro hall m' hm'
    obtain ⟨p, hp⟩ := (mem_subtree_iff hord).mp hm'
    obtain ⟨hs, m, hm, _⟩ := at?_prune hn hp
    exact (rated_prune_iff hn (rated_at? h hm) hm hp).mpr (hall p m hs hm)

theorem exists_pruned_child (hn : n.InOrder) (h : n.Everywhere Rated)
    (hp : at? p (n.prune newcomer).1 = some m') (hunrated : ¬ Rated m') :
    ∃ key, Pruned newcomer n (p ++ [key]) := by
  obtain ⟨_, m, hm, _⟩ := at?_prune hn hp
  have hord : Keyed.Ordered m.children := InOrder.ordered (Everywhere.at? hn hm)
  rw [rated_prune_iff hn (rated_at? h hm) hm hp] at hunrated
  apply Classical.byContradiction
  intro hnone
  exact hunrated (upheld_of_rated (rated_at? h hm) hord fun key hkey => hnone ⟨key, hkey⟩)

/-- Pruning carries the statuses over. -/
theorem prune_carriedOver (hn : n.InOrder) (h : n.Everywhere Rated) (newcomer : Option String) :
    CarriedOver newcomer n (n.prune newcomer).1 where
  records := info?_prune hn
  rated := everywhere_rated_prune_iff hn h
  unrated := fun _ _ hp hunrated => exists_pruned_child hn h hp hunrated
  mended := by
    refine ⟨rated_rollup _, fun p m' hp => ⟨by rw [at?_rollup, hp]; rfl, rollup_own m', ?_⟩⟩
    exact globalStatus_rollup_le (Everywhere.at? (everywhere_covered_prune hn h newcomer) hp)

/-- A machine `b` that reports the root as it was when its disk was full. -/
def echoedTree : Node :=
  let echo := ((machine "r" []).submit (Reading.plain "disk" Status.critical 2 "" (.ofUnix 0))).1
  rollup (machine "r" [("b", machine "b" [("r", echo)]), ("c", machine "c" [])])

theorem echoedTree_carriedOver :
    echoedTree.InOrder ∧ echoedTree.Everywhere Rated ∧
      (echoedTree.prune none).1.subtree.map (fun m => (m.uuid, m.globalStatus)) =
        [("r", Status.critical), ("b", Status.critical), ("c", Status.ok)] ∧
      CarriedOver none echoedTree (echoedTree.prune none).1 := by
  have hn : echoedTree.InOrder := by decide
  have h : echoedTree.Everywhere Rated := by decide
  exact ⟨hn, h, by decide, prune_carriedOver hn h none⟩

/-- A tree that is rated, and that is not rated any more when it is pruned. -/
theorem echoedTree_unrated :
    echoedTree.InOrder ∧ echoedTree.Everywhere Rated ∧ (echoedTree.prune none).2 = ["r"] ∧
      ¬ (echoedTree.prune none).1.Everywhere Rated := by
  decide

end Node
end FleetMesh
