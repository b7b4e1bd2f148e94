/-
What pruning leaves of a tree.

The search visits as many levels as the tree has, so it finds every pruned
position (`mem_doomed`), in the order of the visits (`doomed_spec`).  Removing
them leaves the positions that survive with the records they had, and nothing at the
others (`info?_prune`).
-/
import FleetMesh.Proofs.Duplicates.Search
import FleetMesh.Proofs.Tree.Erase

namespace FleetMesh
namespace Node

variable {newcomer : Option String} {n : Node}

/-! ## The first level -/

/-- Whether a child is the newcomer. -/
def isNewcomer (newcomer : Option String) (x : Placed) : Bool :=
  newcomer.any (fun key => x.1 == [key])

theorem firstLevel_eq (newcomer : Option String) (n : Node) :
    firstLevel newcomer n =
      (placedChildren [] n).filter (fun x => !isNewcomer newcomer x) ++
        (placedChildren [] n).filter (isNewcomer newcomer) := rfl

theorem entering_singleton {k : String} {c : Node} :
    Entering newcomer [k] ↔ isNewcomer newcomer ([k], c) = true := by
  cases newcomer with
  | none => exact ⟨fun ⟨_, h, _⟩ => (nomatch h), fun h => (nomatch h)⟩
  | some key =>
    rw [isNewcomer, Option.any_some, beq_iff_eq, List.singleton_inj]
    constructor
    · intro h
      obtain ⟨_, hkey, hpre⟩ := h
      obtain rfl := Option.some.inj hkey
      exact (List.cons_prefix_cons.mp hpre).1.symm
    · intro h
      subst h
      exact ⟨k, rfl, List.prefix_refl _⟩

/-- The children on one side of the newcomer come in key order. -/
theorem visited_side (hord : Keyed.Ordered n.children) {side : Placed → Bool}
    (hside : ∀ j k c d, side ([j], c) = true → side ([k], d) = true →
      (Entering newcomer [j] ↔ Entering newcomer [k])) :
    Visited newcomer ((placedChildren [] n).filter side) := by
  rw [Visited, List.pairwise_filter, placedChildren, List.pairwise_map]
  refine List.Pairwise.imp (fun {e d} hlt => ?_) hord
  intro he hd
  exact Or.inr ⟨rfl, Or.inr ⟨hside e.1 d.1 e.2 d.2 he hd, List.Lex.rel hlt⟩⟩

theorem visited_firstLevel (hord : Keyed.Ordered n.children) :
    Visited newcomer (firstLevel newcomer n) := by
  rw [firstLevel_eq]
  refine List.pairwise_append.mpr ⟨visited_side hord ?_, visited_side hord ?_, ?_⟩
  · intro j k c d hj hk
    rw [entering_singleton (c := c), entering_singleton (c := d)]
    simp_all
  · intro j k c d hj hk
    rw [entering_singleton (c := c), entering_singleton (c := d)]
    exact ⟨fun _ => hk, fun _ => hj⟩
  · intro x hx y hy
    obtain ⟨hx, hsx⟩ := List.mem_filter.mp hx
    obtain ⟨hy, hsy⟩ := List.mem_filter.mp hy
    obtain ⟨e, _, rfl⟩ := mem_placedChildren.mp hx
    obtain ⟨d, _, rfl⟩ := mem_placedChildren.mp hy
    refine Or.inr ⟨rfl, Or.inl ⟨fun h => ?_, entering_singleton.mpr hsy⟩⟩
    have hnew : isNewcomer newcomer ([e.1], e.2) = true := entering_singleton.mp h
    rw [show isNewcomer newcomer ([] ++ [e.1], e.2) = true from hnew] at hsx
    exact Bool.false_ne_true hsx

theorem mem_firstLevel {x : Placed} : x ∈ firstLevel newcomer n ↔ x ∈ placedChildren [] n := by
  rw [firstLevel_eq, List.mem_append, List.mem_filter, List.mem_filter]
  cases isNewcomer newcomer x <;> simp

theorem level_one (hn : n.InOrder) : Level newcomer n 1 (firstLevel newcomer n) where
  mem x := by
    rw [mem_firstLevel, mem_placedChildren_iff hn rfl]
    constructor
    · intro h
      obtain ⟨k, hk, hat⟩ := h
      refine ⟨by rw [hk]; rfl, hat, ?_⟩
      rw [hk, clear_append]
      exact ⟨clear_nil, not_pruned_nil⟩
    · intro h
      obtain ⟨hlen, hat, _⟩ := h
      obtain ⟨k, hk⟩ := List.length_eq_one_iff.mp hlen
      exact ⟨k, hk, hat⟩
  visited := visited_firstLevel hn.ordered

theorem known_one : Known newcomer n 1 [(n.uuid, ())] := by
  intro u
  rw [Keyed.contains_iff]
  constructor
  · intro h
    obtain ⟨_, h⟩ := h
    have hid := List.mem_singleton.mp (Keyed.mem_of_find? h)
    exact ⟨[], n, Nat.zero_lt_one, rfl, clear_nil, (Prod.mk.inj hid).1.symm⟩
  · intro h
    obtain ⟨q, k, hlen, hat, _, rfl⟩ := h
    obtain rfl := List.length_eq_zero_iff.mp (Nat.lt_one_iff.mp hlen)
    obtain rfl := Option.some.inj hat
    exact ⟨(), by rw [Keyed.find?, if_pos rfl]⟩

/-! ## All levels -/

/-- A scan of a level dooms what is pruned in it. -/
theorem mem_doomed_of_level {depth : Nat} {seen : List (String × Unit)} {level : List Placed}
    (hl : Level newcomer n depth level) (hk : Known newcomer n depth seen) (x : Placed) :
    x ∈ (scanLevel seen level).doomed ↔
      x.1.length = depth ∧ at? x.1 n = some x.2 ∧ Pruned newcomer n x.1 := by
  rw [mem_scanLevel_doomed hl.visited]
  constructor
  · intro h
    obtain ⟨hx, hrep⟩ := h
    obtain ⟨hlen, hat, _⟩ := (hl.mem x).mp hx
    exact ⟨hlen, hat, (repeated_iff_pruned hl hk hx).mp hrep⟩
  · intro h
    obtain ⟨hlen, hat, hp⟩ := h
    have hx := (hl.mem x).mpr ⟨hlen, hat, hp.clear⟩
    exact ⟨hx, (repeated_iff_pruned hl hk hx).mpr hp⟩

/-- With enough levels left the search finds what is pruned from a level on. -/
theorem duplicates_spec (hn : n.InOrder) (levels : Nat) {depth : Nat}
    {seen : List (String × Unit)} {level : List Placed} (hd : depth ≠ 0)
    (hl : Level newcomer n depth level) (hk : Known newcomer n depth seen)
    (hbound : ∀ q k, at? q n = some k → q.length < depth + levels) :
    Visited newcomer (duplicates levels seen level) ∧
      ∀ x, x ∈ duplicates levels seen level ↔
        depth ≤ x.1.length ∧ at? x.1 n = some x.2 ∧ Pruned newcomer n x.1 := by
  -- `Level` and `Known` hold of every level in turn; what is deeper is left to the rest
  induction levels generalizing depth seen level with
  | zero =>
    refine ⟨List.Pairwise.nil, fun x => ⟨fun h => absurd h List.not_mem_nil, ?_⟩⟩
    intro h
    obtain ⟨hle, hat, _⟩ := h
    exact absurd hle (Nat.not_le_of_lt (hbound x.1 x.2 hat))
  | succ levels ih =>
    obtain ⟨hv, hmem⟩ := ih (Nat.succ_ne_zero depth) (level_succ hn hl hk hd) (known_succ hl hk)
      (fun q k hat => by rw [Nat.succ_add]; exact hbound q k hat)
    have hdoomed := mem_doomed_of_level hl hk
    rw [duplicates]
    constructor
    · refine List.pairwise_append.mpr
        ⟨List.Pairwise.sublist (scanLevel_doomed_sublist seen level) hl.visited, hv, ?_⟩
      intro x hx y hy
      have hlen := ((hdoomed x).mp hx).1
      exact Or.inl (hlen ▸ ((hmem y).mp hy).1)
    · intro x
      rw [List.mem_append, hdoomed, hmem]
      constructor
      · intro h
        rcases h with ⟨hlen, h⟩ | ⟨hle, h⟩
        · exact ⟨Nat.le_of_eq hlen.symm, h⟩
        · exact ⟨Nat.le_of_succ_le hle, h⟩
      · intro h
        obtain ⟨hle, h⟩ := h
        rcases Nat.eq_or_lt_of_le hle with hlen | hlt
        · exact Or.inl ⟨hlen.symm, h⟩
        · exact Or.inr ⟨hlt, h⟩

theorem doomed_spec (hn : n.InOrder) :
    Visited newcomer (doomed newcomer n) ∧
      ∀ x, x ∈ doomed newcomer n ↔
        1 ≤ x.1.length ∧ at? x.1 n = some x.2 ∧ Pruned newcomer n x.1 := by
  refine duplicates_spec hn (heights n.children) Nat.one_ne_zero (level_one hn) known_one ?_
  intro q k hat
  have hlt := length_lt_height hat
  rw [height_eq] at hlt
  omega

/-- The search finds what is pruned. -/
theorem mem_doomed (hn : n.InOrder) {x : Placed} :
    x ∈ doomed newcomer n ↔ at? x.1 n = some x.2 ∧ Pruned newcomer n x.1 := by
  rw [(doomed_spec hn).2]
  refine ⟨fun h => h.2, fun h => ⟨?_, h⟩⟩
  exact List.length_pos_iff.mpr fun e => not_pruned_nil (e ▸ h.2)

theorem mem_positions (hn : n.InOrder) {p : List String} :
    p ∈ (doomed newcomer n).map Prod.fst ↔ Pruned newcomer n p := by
  rw [List.mem_map]
  constructor
  · intro h
    obtain ⟨x, hx, rfl⟩ := h
    exact ((mem_doomed hn).mp hx).2
  · intro hp
    obtain ⟨m, hm⟩ := hp.occurs
    exact ⟨(p, m), (mem_doomed hn).mpr ⟨hm, hp⟩, rfl⟩

/-! ## The removal -/

theorem prune_tree (newcomer : Option String) (n : Node) :
    (n.prune newcomer).1 = n.eraseAll ((doomed newcomer n).map Prod.fst) := by
  rw [eraseAll, List.foldl_map]
  rfl

theorem info?_prune (hn : n.InOrder) (p : List String) :
    (Survives newcomer n p → info? p (n.prune newcomer).1 = info? p n) ∧
      (¬ Survives newcomer n p → info? p (n.prune newcomer).1 = none) := by
  have hpruned : ∀ a ∈ (doomed newcomer n).map Prod.fst, Pruned newcomer n a :=
    fun a ha => (mem_positions hn).mp ha
  have hne : ∀ a ∈ (doomed newcomer n).map Prod.fst, a ≠ [] :=
    fun a ha e => not_pruned_nil (e ▸ hpruned a ha)
  have herase := info?_eraseAll hn hne p
  rw [prune_tree]
  constructor
  · intro h
    exact herase.2 fun a ha hpre => h a hpre (hpruned a ha)
  · intro h
    obtain ⟨a, ha⟩ := Classical.not_forall.mp h
    obtain ⟨hpre, hp⟩ := Classical.not_imp.mp ha
    exact herase.1 ⟨a, (mem_positions hn).mpr (Classical.not_not.mp hp), hpre⟩

theorem own?_prune (hn : n.InOrder) (p : List String) :
    (Survives newcomer n p → own? p (n.prune newcomer).1 = own? p n) ∧
      (¬ Survives newcomer n p → own? p (n.prune newcomer).1 = none) := by
  obtain ⟨hkept, hgone⟩ := @info?_prune newcomer n hn p
  rw [own?_eq_info?, own?_eq_info?]
  exact ⟨fun h => congrArg _ (hkept h), fun h => congrArg _ (hgone h)⟩

theorem info?_prune_eq_some (hn : n.InOrder) {p : List String} {info : NodeInfo} :
    info? p (n.prune newcomer).1 = some info ↔ info? p n = some info ∧ Survives newcomer n p := by
  obtain ⟨hkept, hgone⟩ := @info?_prune newcomer n hn p
  by_cases hp : Survives newcomer n p
  · rw [hkept hp, and_iff_left hp]
  · rw [hgone hp]
    exact ⟨fun h => (nomatch h), fun h => absurd h.2 hp⟩

theorem uuid?_prune_eq_some (hn : n.InOrder) {p : List String} {uuid : String} :
    uuid? p (n.prune newcomer).1 = some uuid ↔ uuid? p n = some uuid ∧ Survives newcomer n p := by
  rw [uuid?_eq_info?, uuid?_eq_info?, Option.map_eq_some_iff, Option.map_eq_some_iff]
  simp only [info?_prune_eq_some hn, and_right_comm, exists_and_right]

theorem inOrder_prune (hn : n.InOrder) (newcomer : Option String) :
    (n.prune newcomer).1.InOrder := by
  rw [prune_tree]
  exact Everywhere.eraseAll stable_ordered _ hn

/-! ## What is named -/

theorem positions_visited (hn : n.InOrder) :
    ((doomed newcomer n).map Prod.fst).Pairwise (Before newcomer) :=
  List.pairwise_map.mpr (doomed_spec hn).1

theorem positions_nodup (hn : n.InOrder) : ((doomed newcomer n).map Prod.fst).Nodup := by
  have hvisited : ((doomed newcomer n).map Prod.fst).Pairwise (Before newcomer) :=
    positions_visited hn
  refine hvisited.imp fun {p q} hpq => ?_
  exact fun he => before_irrefl q (he ▸ hpq)

/-- The identifiers that are named are those at the pruned positions. -/
theorem prune_names (hn : n.InOrder) :
    (n.prune newcomer).2.map some =
      ((doomed newcomer n).map Prod.fst).map (fun p => uuid? p n) := by
  show List.map some (List.map _ (doomed newcomer n)) = _
  rw [List.map_map, List.map_map]
  refine List.map_congr_left fun x hx => ?_
  exact (uuid?_eq_some.mpr ⟨x.2, ((mem_doomed hn).mp hx).1, rfl⟩).symm

/-- Trees in which the same positions are pruned, with the same identifiers, have the
same named in the same order. -/
theorem prune_names_congr {n' : Node} (hn : n.InOrder) (hn' : n'.InOrder)
    (h : ∀ p, Pruned newcomer n p ↔ Pruned newcomer n' p)
    (huuid : ∀ p, Pruned newcomer n p → uuid? p n = uuid? p n') :
    (n.prune newcomer).2 = (n'.prune newcomer).2 := by
  have hperm : ((doomed newcomer n).map Prod.fst).Perm ((doomed newcomer n').map Prod.fst) := by
    rw [List.perm_ext_iff_of_nodup (positions_nodup hn) (positions_nodup hn')]
    exact fun p => (mem_positions hn).trans ((h p).trans (mem_positions hn').symm)
  have hsame := hperm.eq_of_pairwise (fun p q _ _ hpq hqp => absurd hqp (before_asymm hpq))
    (positions_visited hn) (positions_visited hn')
  refine (List.map_inj_right fun _ _ => Option.some.inj).mp ?_
  rw [prune_names hn, prune_names hn', ← hsame]
  exact List.map_congr_left fun p hp => huuid p ((mem_positions hn).mp hp)

end Node
end FleetMesh
