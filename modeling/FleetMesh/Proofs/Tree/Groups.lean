/-
The groups of a tree.

The summaries of the listed groups share out the nodes that have a group: every
position of such a node is in the summary of one group, once, and every other
position in none (`groups_partition`).  A position is a path of keys, so the
statement does not go by the walk that the summaries are made with, and pre-order
is the lexicographic order of the paths.

In a rated tree no group is worse than the root, since no node is, and the root's
own group is as bad as the root.
-/
import FleetMesh.Node.Query
import FleetMesh.Proofs.Tree.Rollup
import Mathlib.Data.List.Nodup

namespace FleetMesh
namespace Node

variable {n m : Node} {g : String} {p : List String}

/-! ## Positions in pre-order -/

mutual

/-- The paths to all nodes of the tree, in the order of the walk. -/
def paths : Node → List (List String)
  | ⟨_, children⟩ => [] :: pathsBelow children

def pathsBelow : List (String × Node) → List (List String)
  | [] => []
  | (key, child) :: rest => child.paths.map (List.cons key) ++ pathsBelow rest

end

/-- A node comes before what is below it, and that before the later children. -/
def InPreorder (ps : List (List String)) : Prop := ps.Pairwise (List.Lex (fun a b => a < b))

instance (ps : List (List String)) : Decidable (InPreorder ps) :=
  inferInstanceAs (Decidable (ps.Pairwise (List.Lex (fun a b => a < b))))

theorem pathsBelow_eq (children : List (String × Node)) :
    pathsBelow children = children.flatMap (fun e => e.2.paths.map (List.cons e.1)) := by
  induction children with
  | nil => rfl
  | cons e rest ih =>
    obtain ⟨key, child⟩ := e
    rw [pathsBelow, ih, List.flatMap_cons]

theorem paths_eq (n : Node) :
    n.paths = [] :: n.children.flatMap (fun e => e.2.paths.map (List.cons e.1)) := by
  obtain ⟨info, children⟩ := n
  rw [paths, pathsBelow_eq]

/-- The walk visits the nodes that the paths lead to. -/
theorem at?_paths (hn : n.InOrder) : n.paths.map (fun p => at? p n) = n.subtree.map some := by
  induction n using induct with
  | step n ih =>
    have hchild : ∀ e ∈ n.children,
        (e.2.paths.map (List.cons e.1)).map (fun p => at? p n) = e.2.subtree.map some := by
      intro e he
      rw [← ih e he ((everywhere_iff.mp hn).2 e he), List.map_map]
      refine List.map_congr_left fun p _ => ?_
      -- the key finds this child again, since no other child has it
      show at? (e.1 :: p) n = at? p e.2
      rw [at?_cons, Keyed.find?_of_mem hn.ordered he, Option.bind_some]
    rw [paths_eq, subtree_eq, List.map_cons, List.map_cons, List.map_flatMap, List.map_flatMap,
      List.flatMap_congr hchild]
    rfl

theorem mem_paths (hn : n.InOrder) : p ∈ n.paths ↔ ∃ m, at? p n = some m := by
  constructor
  · intro hp
    have hmem : at? p n ∈ n.subtree.map some :=
      at?_paths hn ▸ List.mem_map_of_mem (f := fun p => at? p n) hp
    obtain ⟨m, -, hm⟩ := List.mem_map.mp hmem
    exact ⟨m, hm.symm⟩
  · intro h
    induction p generalizing n with
    | nil =>
      rw [paths_eq]
      exact List.mem_cons_self
    | cons key p ih =>
      obtain ⟨m, hm⟩ := h
      obtain ⟨c, hc, hm⟩ := at?_cons_eq_some.mp hm
      have hp : p ∈ c.paths := ih (hn.child hc) ⟨m, hm⟩
      rw [paths_eq]
      refine List.mem_cons_of_mem _ (List.mem_flatMap.mpr ⟨_, Keyed.mem_of_find? hc, ?_⟩)
      exact List.mem_map_of_mem hp

theorem inPreorder_paths (hn : n.InOrder) : InPreorder n.paths := by
  induction n using induct with
  | step n ih =>
    rw [paths_eq]
    refine List.pairwise_cons.mpr ⟨?_, List.pairwise_flatMap.mpr ⟨?_, ?_⟩⟩
    · intro p hp
      obtain ⟨e, _, hp⟩ := List.mem_flatMap.mp hp
      obtain ⟨q, _, rfl⟩ := List.mem_map.mp hp
      exact .nil
    · intro e he
      rw [List.pairwise_map]
      exact (ih e he ((everywhere_iff.mp hn).2 e he)).imp fun h => .cons h
    · refine hn.ordered.imp fun {e d} hlt => ?_
      intro p hp q hq
      obtain ⟨p, _, rfl⟩ := List.mem_map.mp hp
      obtain ⟨q, _, rfl⟩ := List.mem_map.mp hq
      exact .rel hlt

theorem InPreorder.nodup {ps : List (List String)} (h : InPreorder ps) : ps.Nodup := by
  refine h.imp fun {p q} hlt he => ?_
  subst he
  induction p with
  | nil => cases hlt
  | cons key p ih =>
    cases hlt with
    | rel hkey => exact String.lt_irrefl key hkey
    | cons hlt => exact ih hlt

/-! ## The nodes of a group -/

def placesOf (n : Node) (g : String) : List (List String) :=
  n.paths.filter (fun p => (at? p n).any (fun m => m.localHost.group == g))

theorem mem_placesOf (hn : n.InOrder) :
    p ∈ n.placesOf g ↔ ∃ m, at? p n = some m ∧ m.localHost.group = g := by
  rw [placesOf, List.mem_filter, mem_paths hn, Option.any_eq_true]
  simp only [beq_iff_eq]
  exact and_iff_right_of_imp fun ⟨m, hm, _⟩ => ⟨m, hm⟩

theorem inPreorder_placesOf (hn : n.InOrder) (g : String) : InPreorder (n.placesOf g) :=
  (inPreorder_paths hn).sublist List.filter_sublist

/-- A summary lists its nodes in pre-order. -/
theorem hosts_groupSummary (hn : n.InOrder) (g : String) :
    (n.placesOf g).map (fun p => (at? p n).map HostSummary.ofNode) =
      (n.groupSummary g).hosts.map some := by
  have hnodes : (n.placesOf g).map (fun p => at? p n) =
      (n.subtree.filter (fun m => m.localHost.group == g)).map some := by
    have hwalk := congrArg (List.filter (fun o => o.any (fun m => m.localHost.group == g)))
      (at?_paths hn)
    rwa [List.filter_map, List.filter_map] at hwalk
  have hsummaries := congrArg (List.map (Option.map HostSummary.ofNode)) hnodes
  rw [List.map_map, List.map_map] at hsummaries
  rw [groupSummary, List.map_map]
  exact hsummaries

/-! ## The list of groups -/

/-- The groups met so far, and that of one more node. -/
def meet (met : List String) (m : Node) : List String :=
  if m.localHost.group = "" ∨ m.localHost.group ∈ met then met else met ++ [m.localHost.group]

theorem mem_meet {met : List String} :
    g ∈ meet met m ↔ g ∈ met ∨ g ≠ "" ∧ m.localHost.group = g := by
  rw [meet]
  split
  · rename_i h
    refine (or_iff_left_of_imp ?_).symm
    rintro ⟨hne, rfl⟩
    exact h.resolve_left hne
  · rename_i h
    rw [List.mem_append, List.mem_singleton]
    refine or_congr_right ⟨?_, fun ⟨_, he⟩ => he.symm⟩
    rintro rfl
    exact ⟨fun he => h (Or.inl he), rfl⟩

theorem nodup_meet {met : List String} (h : met.Nodup) (m : Node) : (meet met m).Nodup := by
  rw [meet]
  split
  · exact h
  · rename_i hnew
    refine List.nodup_append.mpr ⟨h, List.nodup_singleton _, ?_⟩
    rintro a ha b hb rfl
    exact hnew (Or.inr (List.mem_singleton.mp hb ▸ ha))

theorem foldl_meet (nodes : List Node) {met : List String} (h : met.Nodup) :
    (nodes.foldl meet met).Nodup ∧
      ∀ g, g ∈ nodes.foldl meet met ↔
        g ∈ met ∨ g ≠ "" ∧ ∃ m ∈ nodes, m.localHost.group = g := by
  induction nodes generalizing met with
  | nil => simp [h]
  | cons m nodes ih =>
    obtain ⟨hnodup, hmem⟩ := ih (nodup_meet h m)
    refine ⟨hnodup, fun g => ?_⟩
    rw [List.foldl_cons, hmem, mem_meet, List.exists_mem_cons_iff]
    tauto

theorem nodup_groups (n : Node) : n.groups.Nodup := (foldl_meet n.subtree List.nodup_nil).1

/-- The listed groups are those that a node has, without the empty one. -/
theorem mem_groups (hn : n.InOrder) : g ∈ n.groups ↔ g ≠ "" ∧ n.placesOf g ≠ [] := by
  have hmem : g ∈ n.groups ↔ g ≠ "" ∧ ∃ m ∈ n.subtree, m.localHost.group = g := by
    have h := (foldl_meet n.subtree List.nodup_nil).2 g
    rwa [or_iff_right List.not_mem_nil] at h
  rw [hmem]
  refine and_congr_right fun _ => ⟨?_, fun hne => ?_⟩
  · rintro ⟨m, hm, hg⟩
    obtain ⟨p, hp⟩ := (mem_subtree_iff hn).mp hm
    exact List.ne_nil_of_mem ((mem_placesOf hn).mpr ⟨m, hp, hg⟩)
  · obtain ⟨p, hp⟩ := List.exists_mem_of_ne_nil _ hne
    obtain ⟨m, hm, hg⟩ := (mem_placesOf hn).mp hp
    exact ⟨m, (mem_subtree_iff hn).mpr ⟨p, hm⟩, hg⟩

/-- Different groups have no position in common. -/
theorem nodup_places (hn : n.InOrder) : (n.groups.flatMap n.placesOf).Nodup := by
  refine List.nodup_flatMap.mpr ⟨fun g _ => (inPreorder_placesOf hn g).nodup, ?_⟩
  refine (nodup_groups n).imp fun {g k} hne p hg hk => hne ?_
  obtain ⟨m, hm, rfl⟩ := (mem_placesOf hn).mp hg
  obtain ⟨l, hl, rfl⟩ := (mem_placesOf hn).mp hk
  rw [hm, Option.some.injEq] at hl
  rw [hl]

theorem mem_places (hn : n.InOrder) :
    p ∈ n.groups.flatMap n.placesOf ↔ ∃ m, at? p n = some m ∧ m.localHost.group ≠ "" := by
  rw [List.mem_flatMap]
  constructor
  · rintro ⟨g, hg, hp⟩
    obtain ⟨m, hm, rfl⟩ := (mem_placesOf hn).mp hp
    exact ⟨m, hm, ((mem_groups hn).mp hg).1⟩
  · rintro ⟨m, hm, hne⟩
    have hp : p ∈ n.placesOf m.localHost.group := (mem_placesOf hn).mpr ⟨m, hm, rfl⟩
    exact ⟨_, (mem_groups hn).mpr ⟨hne, List.ne_nil_of_mem hp⟩, hp⟩

/-! ## The status of a group -/

theorem worstOf_eq_max? {statuses : List Int} (h : statuses ≠ []) :
    statuses.max? = some (worstOf statuses) := by
  cases statuses with
  | nil => exact absurd rfl h
  | cons s rest =>
    rw [List.max?_cons']
    rfl

/-- The status of a group that has hosts is that of the worst, also if it is negative. -/
theorem status_groupSummary (h : (n.groupSummary g).hosts ≠ []) :
    ((n.groupSummary g).hosts.map HostSummary.status).max? = some (n.groupSummary g).status :=
  worstOf_eq_max? (List.map_eq_nil_iff.not.mpr h)

theorem mem_hosts {h : HostSummary} :
    h ∈ (n.groupSummary g).hosts ↔
      ∃ m ∈ n.subtree, m.localHost.group = g ∧ HostSummary.ofNode m = h := by
  simp [groupSummary, and_assoc]

/-- In a rated tree nothing is worse than the root. -/
theorem Everywhere.globalStatus_le (h : n.Everywhere Rated) (hm : m ∈ n.subtree) :
    m.globalStatus ≤ n.globalStatus := by
  induction n using induct with
  | step n ih =>
    obtain ⟨hrated, hbelow⟩ := everywhere_iff.mp h
    rcases mem_subtree.mp hm with rfl | ⟨e, he, hm⟩
    · exact Int.le_refl _
    · have hchild : e.2.globalStatus ≤ n.globalStatus :=
        (List.max?_eq_some_iff.mp hrated).2 _ (List.mem_cons_of_mem _ (List.mem_map_of_mem he))
      exact Int.le_trans (ih e he (hbelow e he) hm) hchild

theorem status_groupSummary_le (h : n.Everywhere Rated) (hne : (n.groupSummary g).hosts ≠ []) :
    (n.groupSummary g).status ≤ n.globalStatus := by
  obtain ⟨hworst, -⟩ := List.max?_eq_some_iff.mp (status_groupSummary hne)
  obtain ⟨host, hhost, hstatus⟩ := List.mem_map.mp hworst
  obtain ⟨m, hm, _, rfl⟩ := mem_hosts.mp hhost
  rw [← hstatus]
  exact h.globalStatus_le hm

theorem status_groupSummary_root (h : n.Everywhere Rated) :
    (n.groupSummary n.localHost.group).status = n.globalStatus := by
  have hroot : HostSummary.ofNode n ∈ (n.groupSummary n.localHost.group).hosts :=
    mem_hosts.mpr ⟨n, mem_subtree.mpr (Or.inl rfl), rfl, rfl⟩
  have hne := List.ne_nil_of_mem hroot
  refine Int.le_antisymm (status_groupSummary_le h hne) ?_
  exact (List.max?_eq_some_iff.mp (status_groupSummary hne)).2 _ (List.mem_map_of_mem hroot)

/-! ## Main statement -/

/-- The listed groups share out the positions of the nodes that have a group.  Each has
a node, and its summary lists its nodes in pre-order.  In a rated tree none is worse
than the root, and the root's own is as bad. -/
theorem groups_partition (hn : n.InOrder) :
    n.groups.Nodup ∧ (n.groups.flatMap n.placesOf).Nodup ∧
      (∀ p, p ∈ n.groups.flatMap n.placesOf ↔ ∃ m, at? p n = some m ∧ m.localHost.group ≠ "") ∧
      (∀ g ∈ n.groups, n.placesOf g ≠ [] ∧ InPreorder (n.placesOf g) ∧
        (∀ p, p ∈ n.placesOf g ↔ ∃ m, at? p n = some m ∧ m.localHost.group = g) ∧
        (n.placesOf g).map (fun p => (at? p n).map HostSummary.ofNode) =
          (n.groupSummary g).hosts.map some) ∧
      (n.Everywhere Rated →
        (∀ g ∈ n.groups, (n.groupSummary g).status ≤ n.globalStatus) ∧
        (n.localHost.group ≠ "" →
          n.localHost.group ∈ n.groups ∧
            (n.groupSummary n.localHost.group).status = n.globalStatus)) := by
  have hhosts : ∀ g ∈ n.groups, (n.groupSummary g).hosts ≠ [] := by
    intro g hg hnil
    have hplaces := hosts_groupSummary hn g
    rw [hnil, List.map_nil, List.map_eq_nil_iff] at hplaces
    exact ((mem_groups hn).mp hg).2 hplaces
  refine ⟨nodup_groups n, nodup_places hn, fun p => mem_places hn, fun g hg => ?_, fun h => ?_⟩
  · exact ⟨((mem_groups hn).mp hg).2, inPreorder_placesOf hn g, fun p => mem_placesOf hn,
      hosts_groupSummary hn g⟩
  · refine ⟨fun g hg => status_groupSummary_le h (hhosts g hg), fun hne => ?_⟩
    have hroot : [] ∈ n.placesOf n.localHost.group := (mem_placesOf hn).mpr ⟨n, rfl, rfl⟩
    exact ⟨(mem_groups hn).mpr ⟨hne, List.ne_nil_of_mem hroot⟩, status_groupSummary_root h⟩

/-- A tree where all is far below zero.  The group `web` is met at two depths, the root's
`edge` again below it, and one machine has no group. -/
def chilledTree : Node :=
  let machine (uuid group : String) (status : Int) (children : List (String × Node)) : Node :=
    { ((Node.new uuid ("host-" ++ uuid) group 0).submit
        (Reading.plain "disk" status 0 "" (.ofUnix 0))).1 with children := children }
  rollup (machine "r" "edge" (-9) [("a", machine "a" "web" (-7) [("c", machine "c" "edge" (-8) [])]),
    ("b", machine "b" "" (-6) [("d", machine "d" "web" (-5) [])])])

theorem chilledTree_groups :
    chilledTree.InOrder ∧ chilledTree.Everywhere Rated ∧
      chilledTree.groups = ["edge", "web"] ∧
      chilledTree.groups.map chilledTree.placesOf = [[[], ["a", "c"]], [["a"], ["b", "d"]]] ∧
      chilledTree.groups.map (fun g =>
          (chilledTree.groupSummary g).hosts.map (fun host => (host.uuid, host.name))) =
        [[("r", "host-r"), ("c", "host-c")], [("a", "host-a"), ("d", "host-d")]] ∧
      chilledTree.groups.map (fun g => (chilledTree.groupSummary g).status) = [-5, -5] ∧
      (chilledTree.groups.flatMap chilledTree.placesOf).Nodup ∧
      (chilledTree.groupSummary "edge").status = chilledTree.globalStatus := by
  have hn : chilledTree.InOrder := by decide
  have hrated : chilledTree.Everywhere Rated := by decide
  obtain ⟨_, hnodup, _, _, hstatus⟩ := groups_partition hn
  exact ⟨hn, hrated, by decide, by decide, by decide, by decide, hnodup,
    ((hstatus hrated).2 (by decide)).2⟩

end Node
end FleetMesh
