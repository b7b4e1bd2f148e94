/-
What a merge leaves of the tree and of the snapshot.

`joined` is the tree with the normalized snapshot under its identifier.  The merge
keeps the positions of that tree that survive the search for duplicates, with the
own records they have there, save that the snapshot is dated and may be held down
(`dated`); it reports the identifiers of the duplicates it removed, one for each
removed subtree.  `Deduplicated` is that statement.

The tree before may have any identifiers anywhere, also under other keys than
their own.  Its tables of children are in key order, as `Keyed.insert` keeps them.
-/
import FleetMesh.Proofs.Duplicates.Prune
import FleetMesh.Proofs.Duplicates.Survivor
import FleetMesh.Proofs.Tree.Normal

namespace FleetMesh
namespace Node

/-- The tree with the snapshot in it, before duplicates are removed. -/
def joined (n incoming : Node) : Node :=
  n.setChild incoming.uuid incoming.normalize

/-- What a merge makes of the own record at a position: the snapshot's is dated,
and it is down if the child in its place was down. -/
def dated (n incoming : Node) (now : Int) (p : List String) (info : NodeInfo) : NodeInfo :=
  if p = [incoming.uuid] then
    { info with
      lastUpdate := now
      isAlive :=
        if (Keyed.find? incoming.uuid n.children).any (fun old => !old.isAlive) then false
        else info.isAlive }
  else info

/-- The outcome of a merge into `n`: the tree after it, and the identifiers it
reports as pruned. -/
structure Deduplicated (n incoming : Node) (now : Int) (after : Node) (gone : List String) :
    Prop where
  ordered : after.InOrder
  /-- What is a duplicate, for a position below the root with nothing removed above. -/
  duplicate : ∀ p m, p ≠ [] → at? p (joined n incoming) = some m →
    Clear (some incoming.uuid) (joined n incoming) p →
      (Pruned (some incoming.uuid) (joined n incoming) p ↔
        m.uuid = n.uuid ∨
          ∃ q k, q ≠ [] ∧ at? q (joined n incoming) = some k ∧ k.uuid = m.uuid ∧
            Clear (some incoming.uuid) (joined n incoming) q ∧
            Before (some incoming.uuid) q p)
  survivors : ∀ p, (∃ m, at? p after = some m) ↔
    (∃ m, at? p (joined n incoming) = some m) ∧
      Survives (some incoming.uuid) (joined n incoming) p
  /-- Of an identifier that is met at a clear position one position is left.  It is
  as near to the root, and at the same distance only the newcomer's give way. -/
  nearest : ∀ q uuid, Clear (some incoming.uuid) (joined n incoming) q →
    uuid? q (joined n incoming) = some uuid →
      ∃ p, uuid? p after = some uuid ∧ (∀ r, uuid? r after = some uuid → r = p) ∧
        p.length ≤ q.length ∧
        (p.length = q.length → Entering (some incoming.uuid) p → Entering (some incoming.uuid) q)
  /-- The roots of the removed subtrees, and what was there. -/
  named : ∃ roots : List (List String), roots.Nodup ∧
    (∀ p, p ∈ roots ↔ (∃ m, at? p (joined n incoming) = some m) ∧ at? p after = none ∧
      ∃ m, at? p.dropLast after = some m) ∧
    roots.map (fun p => uuid? p (joined n incoming)) = gone.map some
  records : ∀ p info, own? p after = some info →
    (own? p (joined n incoming)).map (dated n incoming now p) = some info
  statuses : ∀ m ∈ after.subtree,
    (localStatus m.toNodeInfo :: m.children.map (fun e => e.2.globalStatus)).max?
      = some m.globalStatus

variable {n incoming : Node} {now : Int}

/-! ## The tree that is searched -/

/-- The tree with the snapshot as it is stored. -/
def placed (n incoming : Node) (now : Int) : Node :=
  n.setChild incoming.uuid (received incoming (Keyed.find? incoming.uuid n.children) now)

/-- The tree after the merge of a snapshot that is taken. -/
def merged (n incoming : Node) (now : Int) : Node :=
  ((placed n incoming now).prune (some incoming.uuid)).1.rollup

theorem dated_uuid (p : List String) (info : NodeInfo) :
    (dated n incoming now p info).uuid = info.uuid := by
  rw [dated]
  split <;> rfl

theorem own?_placed (p : List String) :
    own? p (placed n incoming now) = (own? p (joined n incoming)).map (dated n incoming now p) := by
  cases p with
  | nil => rfl
  | cons other path =>
    rw [placed, joined, own?_setChild, own?_setChild]
    by_cases hk : incoming.uuid = other
    · rw [if_pos hk, if_pos hk]
      subst hk
      cases path with
      | nil =>
        show some _ = some _
        rw [dated, if_pos rfl]
        rfl
      | cons k path =>
        have hdated : dated n incoming now (incoming.uuid :: k :: path) = id :=
          funext fun info => if_neg (by simp)
        rw [hdated, Option.map_id]
        rfl
    · have hdated : dated n incoming now (other :: path) = id :=
        funext fun info => if_neg fun h => hk (List.cons.inj h).1.symm
      rw [if_neg hk, if_neg hk, hdated, Option.map_id]
      rfl

theorem uuid?_placed (p : List String) :
    uuid? p (placed n incoming now) = uuid? p (joined n incoming) := by
  rw [uuid?_eq_own?, uuid?_eq_own?, own?_placed, Option.map_map]
  exact congrArg (fun f => Option.map f (own? p (joined n incoming)))
    (funext fun info => dated_uuid p info)

theorem inOrder_placed (hn : n.InOrder) (incoming : Node) (now : Int) :
    (placed n incoming now).InOrder := by
  refine InOrder.setChild hn ?_ incoming.uuid
  have hs := everywhere_iff.mp (normalize_sound incoming).inOrder
  exact everywhere_iff.mpr hs

/-- A snapshot that names no machine, or the one that receives it, is not taken. -/
theorem merge_of_refused (h : incoming.uuid = "" ∨ incoming.uuid = n.uuid) (now : Int) :
    n.merge incoming now =
      (n, .refused (if incoming.uuid = "" then .noIdentity else .ownIdentity)) := by
  rw [merge]
  by_cases hid : incoming.uuid = ""
  · rw [if_pos hid, if_pos hid]
  · rw [if_neg hid, if_neg hid, if_pos (h.resolve_left hid)]

theorem merge_eq (hid : incoming.uuid ≠ "") (hne : incoming.uuid ≠ n.uuid) (now : Int) :
    ∃ events, n.merge incoming now =
      (merged n incoming now,
        .stored events ((placed n incoming now).prune (some incoming.uuid)).2) := by
  rw [merge, if_neg hid, if_neg hne]
  exact ⟨_, rfl⟩

/-! ## What is left of it -/

theorem own?_merged (hn : n.InOrder) (now : Int) (p : List String) :
    (Survives (some incoming.uuid) (joined n incoming) p →
      own? p (merged n incoming now) =
        (own? p (joined n incoming)).map (dated n incoming now p)) ∧
    (¬ Survives (some incoming.uuid) (joined n incoming) p →
      own? p (merged n incoming now) = none) := by
  have h := @own?_prune (some incoming.uuid) _ (inOrder_placed hn incoming now) p
  rw [survives_congr uuid?_placed] at h
  rw [merged, own?_rollup, ← own?_placed]
  exact h

theorem exists_at?_merged (hn : n.InOrder) (now : Int) (p : List String) :
    (∃ m, at? p (merged n incoming now) = some m) ↔
      (∃ m, at? p (joined n incoming) = some m) ∧
        Survives (some incoming.uuid) (joined n incoming) p := by
  have hown := @own?_merged n incoming hn now p
  have hsome : ∀ m : Node, (∃ k, at? p m = some k) ↔ (own? p m).isSome := by
    intro m
    rw [own?_isSome, Option.isSome_iff_exists]
  rw [hsome, hsome]
  by_cases hs : Survives (some incoming.uuid) (joined n incoming) p
  · rw [hown.1 hs, Option.isSome_map]
    simp [hs]
  · rw [hown.2 hs]
    simp [hs]

theorem uuid?_merged (hn : n.InOrder) (now : Int) {p : List String} {uuid : String} :
    uuid? p (merged n incoming now) = some uuid ↔
      uuid? p (joined n incoming) = some uuid ∧
        Survives (some incoming.uuid) (joined n incoming) p := by
  rw [merged, uuid?_eq_own?, own?_rollup, ← uuid?_eq_own?,
    uuid?_prune_eq_some (inOrder_placed hn incoming now), uuid?_placed,
    survives_congr uuid?_placed]

theorem inOrder_merged (hn : n.InOrder) (incoming : Node) (now : Int) :
    (merged n incoming now).InOrder := by
  rw [merged]
  exact Everywhere.rollup stable_ordered (inOrder_prune (inOrder_placed hn incoming now) _)

/-- The first clear position of an identifier is the only one that is left of it. -/
theorem nearest_merged (hn : n.InOrder) (now : Int) {q : List String} {uuid : String}
    (hq : Clear (some incoming.uuid) (joined n incoming) q)
    (hu : uuid? q (joined n incoming) = some uuid) :
    ∃ p, uuid? p (merged n incoming now) = some uuid ∧
      (∀ r, uuid? r (merged n incoming now) = some uuid → r = p) ∧ p.length ≤ q.length ∧
      (p.length = q.length → Entering (some incoming.uuid) p →
        Entering (some incoming.uuid) q) := by
  obtain ⟨m, hm, rfl⟩ := uuid?_eq_some.mp hu
  obtain ⟨p, k, hp, hk, hid, hpq⟩ := exists_survivor hq hm
  refine ⟨p, (uuid?_merged hn now).mpr ⟨uuid?_eq_some.mpr ⟨k, hk, hid⟩, hp⟩, ?_, ?_, ?_⟩
  · intro r hr
    obtain ⟨hru, hrs⟩ := (uuid?_merged hn now).mp hr
    obtain ⟨j, hj, hjd⟩ := uuid?_eq_some.mp hru
    exact survives_unique hrs hp hj hk (hid.trans hjd.symm)
  · rcases hpq with rfl | hpq
    · exact Nat.le_refl _
    · exact before_length hpq
  · intro hlen hent
    rcases hpq with rfl | hpq
    · exact hent
    · exact entering_of_before hpq hlen hent

/-! ## What is reported -/

/-- The positions at which the merge removes something. -/
def roots (n incoming : Node) (now : Int) : List (List String) :=
  (doomed (some incoming.uuid) (placed n incoming now)).map Prod.fst

theorem roots_nodup (hn : n.InOrder) : (roots n incoming now).Nodup :=
  positions_nodup (inOrder_placed hn incoming now)

theorem mem_roots (hn : n.InOrder) {p : List String} :
    p ∈ roots n incoming now ↔ Pruned (some incoming.uuid) (joined n incoming) p :=
  (mem_positions (inOrder_placed hn incoming now)).trans (pruned_congr uuid?_placed p)

/-- The identifiers that are reported are those of the removed roots. -/
theorem roots_uuid (hn : n.InOrder) :
    (roots n incoming now).map (fun p => uuid? p (joined n incoming)) =
      ((placed n incoming now).prune (some incoming.uuid)).2.map some := by
  rw [prune_names (inOrder_placed hn incoming now), roots]
  exact List.map_congr_left fun p _ => (uuid?_placed p).symm

/-- What a merge removes starts where a node is missing whose parent is left. -/
theorem mem_roots_iff_top (hn : n.InOrder) (p : List String) :
    p ∈ roots n incoming now ↔ (∃ m, at? p (joined n incoming) = some m) ∧
      at? p (merged n incoming now) = none ∧
        ∃ m, at? p.dropLast (merged n incoming now) = some m := by
  have hat := @exists_at?_merged n incoming hn now
  rw [mem_roots hn, pruned_iff_top, Option.eq_none_iff_forall_ne_some]
  constructor
  · intro h
    obtain ⟨hp, htop⟩ := h
    obtain ⟨m, hm⟩ := (pruned_iff_top.mpr ⟨hp, htop⟩).occurs
    have habove := at?_of_above (List.dropLast_prefix p) hm
    exact ⟨⟨m, hm⟩, fun k hk => hp ((hat p).mp ⟨k, hk⟩).2, (hat p.dropLast).mpr ⟨habove, htop⟩⟩
  · intro h
    obtain ⟨hocc, hnone, htop⟩ := h
    refine ⟨fun hp => ?_, ((hat p.dropLast).mp htop).2⟩
    obtain ⟨k, hk⟩ := (hat p).mpr ⟨hocc, hp⟩
    exact hnone k hk

/-! ## The outcome -/

/-- A merge keeps the first position of every identifier, and changes no record
but the snapshot's. -/
theorem merge_deduplicated (hn : n.InOrder) (hid : incoming.uuid ≠ "")
    (hne : incoming.uuid ≠ n.uuid) (now : Int) :
    ∃ events gone, (n.merge incoming now).2 = .stored events gone ∧
      Deduplicated n incoming now (n.merge incoming now).1 gone := by
  obtain ⟨events, he⟩ := merge_eq hid hne now
  rw [he]
  have hord := inOrder_merged hn incoming now
  refine ⟨events, _, rfl,
    { ordered := hord
      duplicate := fun p m hp hm hc => pruned_below hp hm hc
      survivors := exists_at?_merged hn now
      nearest := fun q uuid hq hu => nearest_merged hn now hq hu
      named := ⟨roots n incoming now, roots_nodup hn, mem_roots_iff_top hn, roots_uuid hn⟩
      records := ?_
      statuses := ?_ }⟩
  · intro p info h
    by_cases hp : Survives (some incoming.uuid) (joined n incoming) p
    · exact ((own?_merged hn now p).1 hp).symm.trans h
    · exact nomatch ((own?_merged hn now p).2 hp).symm.trans h
  · intro m hm
    obtain ⟨path, hpath⟩ := (mem_subtree_iff hord).mp hm
    exact globalStatus_of_rollup (rollup_at? (rollup_rollup _) hpath)

/-- The identifiers that a merge reports as pruned. -/
def Merged.pruned : Merged → List String
  | stored _ gone => gone
  | refused _ => []

/-- A machine with its children and no readings. -/
def machine (uuid : String) (children : List (String × Node)) : Node :=
  ⟨⟨uuid, currentVersion, uuid, true, 0, "OK", .new uuid "", 0, []⟩, children⟩

/-- A tree whose child `a` is down. -/
def crossedTree : Node :=
  machine "r" [("a", { machine "a" [] with isAlive := false }),
    ("b", machine "b" [("c", machine "c" [])])]

/-- A snapshot with the root in it, a neighbour, and a machine that the neighbour
has too, under a key that is not its own. -/
def crossedSnapshot : Node :=
  machine "a" [("x", machine "c" []), ("b", machine "b" [("d", machine "d" [])]),
    ("r", machine "r" [])]

theorem crossed_deduplicated :
    crossedTree.InOrder ∧ crossedSnapshot.uuid ≠ "" ∧ crossedSnapshot.uuid ≠ crossedTree.uuid ∧
      Deduplicated crossedTree crossedSnapshot 7 (crossedTree.merge crossedSnapshot 7).1
        ["b", "c", "r"] := by
  have hn : crossedTree.InOrder := by decide
  have hid : crossedSnapshot.uuid ≠ "" := by decide
  have hne : crossedSnapshot.uuid ≠ crossedTree.uuid := by decide
  obtain ⟨events, gone, h, hd⟩ := merge_deduplicated hn hid hne 7
  have hgone : (crossedTree.merge crossedSnapshot 7).2.pruned = ["b", "c", "r"] := by decide
  rw [h] at hgone
  obtain rfl : gone = ["b", "c", "r"] := hgone
  exact ⟨hn, hid, hne, hd⟩

end Node
end FleetMesh
