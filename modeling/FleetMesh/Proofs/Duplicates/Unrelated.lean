/-
Merges of machines that have nothing to do with each other.

A tree is `Apart` from a snapshot if no identifier of the snapshot occurs in it but
under the snapshot's own.  A merge then prunes nothing but duplicates within the
snapshot: what stands elsewhere stays as it is (`own?_merged_elsewhere`), and what
stands within depends on the snapshot and on the child that it replaces, and on
nothing else of the tree (`own?_merged_within`).  From the two it follows that the
merges of two snapshots without a common identifier commute (`Mesh.merge_comm`),
although each searches the whole tree with its own newcomer ranked last.
-/
import FleetMesh.Proofs.Duplicates.Repeat

namespace FleetMesh
namespace Node

/-- Whether the identifiers of a snapshot occur in a tree only under the snapshot's own. -/
def Unrelated (n incoming : Node) : Prop :=
  ∀ k ∈ incoming.subtree, k.uuid ≠ n.uuid ∧
    ∀ e ∈ n.children, e.1 ≠ incoming.uuid → ∀ l ∈ e.2.subtree, k.uuid ≠ l.uuid

instance (n incoming : Node) : Decidable (Unrelated n incoming) :=
  inferInstanceAs (Decidable (∀ k ∈ incoming.subtree, k.uuid ≠ n.uuid ∧
    ∀ e ∈ n.children, e.1 ≠ incoming.uuid → ∀ l ∈ e.2.subtree, k.uuid ≠ l.uuid))

/-- No identifier is that of a position in the snapshot and of one in the tree that is
not under the key. -/
def Apart (key : String) (n snapshot : Node) : Prop :=
  ∀ p q uuid, ¬ [key] <+: p → uuid? p n = some uuid → uuid? q snapshot ≠ some uuid

variable {n n' x y : Node} {newcomer : Option String} {key : String} {now later : Int}

/-! ## Identifiers of a snapshot -/

/-- Normalizing brings no identifier in. -/
theorem uuid?_normalize {uuid : String} (h : ∀ k ∈ x.subtree, k.uuid ≠ uuid) (p : List String) :
    uuid? p x.normalize ≠ some uuid := by
  have hsteady : Steady fun k => k.uuid ≠ uuid := fun _ _ hm hne he => hne (hm.uuid.symm.trans he)
  have hnormal : x.normalize.Everywhere fun k => k.uuid ≠ uuid := Everywhere.normalize hsteady h
  intro hp
  obtain ⟨k, hk, hid⟩ := uuid?_eq_some.mp hp
  exact (everywhere_iff.mp (Everywhere.at? hnormal hk)).1 hid

theorem Unrelated.apart (hn : n.InOrder) (h : Unrelated n x) : Apart x.uuid n x.normalize := by
  intro p q uuid hp hu
  refine uuid?_normalize (fun k hk hid => ?_) q
  obtain ⟨hroot, hbelow⟩ := h k hk
  cases p with
  | nil => exact hroot (hid.trans (Option.some.inj hu).symm)
  | cons other p =>
    obtain ⟨l, hl, rfl⟩ := uuid?_eq_some.mp hu
    obtain ⟨c, hc, hl⟩ := at?_cons_eq_some.mp hl
    have hother : other ≠ x.uuid := fun he => hp (he ▸ ⟨p, rfl⟩)
    have hmem : l ∈ c.subtree := (mem_subtree_iff (hn.child hc)).mpr ⟨p, hl⟩
    exact hbelow _ (Keyed.mem_of_find? hc) hother l hmem hid

theorem Apart.uuid_ne (h : Apart x.uuid n x.normalize) : x.uuid ≠ n.uuid := by
  intro he
  have hroot : uuid? [] x.normalize = some n.uuid := congrArg some ((normalize_uuid x).trans he)
  exact h [] [] n.uuid (fun hpre => List.cons_ne_nil _ _ (List.prefix_nil.mp hpre)) rfl hroot

theorem uuid?_joined_elsewhere {p : List String} (hp : ¬ [x.uuid] <+: p) :
    uuid? p (joined n x) = uuid? p n := by
  rw [uuid?_eq_own?, uuid?_eq_own?, own?_joined_elsewhere hp]

theorem uuid?_joined_within (path : List String) :
    uuid? (x.uuid :: path) (joined n x) = uuid? path x.normalize := by
  rw [uuid?_eq_own?, uuid?_eq_own?, own?_joined_newcomer]

/-! ## Within a key -/

/-- What is above a position under a key is the root, or it is under the key too. -/
theorem nil_or_within {a p : List String} (hp : [key] <+: p) (ha : a <+: p) :
    a = [] ∨ [key] <+: a := by
  cases a with
  | nil => exact Or.inl rfl
  | cons k a =>
    obtain ⟨path, rfl⟩ := hp
    obtain ⟨rfl, -⟩ := List.cons_prefix_cons.mp ha
    exact Or.inr ⟨a, rfl⟩

/-- What stands under a key has its identifiers for itself. -/
def Secluded (key : String) (n : Node) : Prop :=
  ∀ p q uuid, [key] <+: p → ¬ [key] <+: q → uuid? p n = some uuid → uuid? q n ≠ some uuid

theorem Apart.secluded (h : Apart x.uuid n x.normalize) : Secluded x.uuid (joined n x) := by
  intro p q uuid hp hq hpu hqu
  obtain ⟨path, rfl⟩ := hp
  rw [List.singleton_append, uuid?_joined_within] at hpu
  rw [uuid?_joined_elsewhere hq] at hqu
  exact h q path uuid hq hqu hpu

/-- What is pruned under a key that is secluded is a matter of what stands there. -/
theorem pruned_within (h : Secluded key n) (h' : Secluded key n')
    (hsame : ∀ p, [key] <+: p → uuid? p n = uuid? p n') {p : List String} (hp : [key] <+: p) :
    Pruned newcomer n p ↔ Pruned newcomer n' p := by
  induction hlen : p.length using Nat.strong_induction_on generalizing p with
  | _ length ih =>
    have hclear : ∀ q, [key] <+: q → q.length ≤ p.length →
        (Clear newcomer n q ↔ Clear newcomer n' q) := by
      intro q hkey hq
      refine forall_congr' fun a => forall_congr' fun ha => forall_congr' fun hne => not_congr ?_
      have hlt := length_lt_of_above ⟨ha, hne⟩
      rcases nil_or_within hkey ha with rfl | hka
      · exact iff_of_false not_pruned_nil not_pruned_nil
      · exact ih a.length (by omega) hka rfl
    rw [pruned_iff_uuid, pruned_iff_uuid, hclear p hp (Nat.le_refl _), hsame p hp]
    refine and_congr_right fun _ => exists_congr fun q => exists_congr fun uuid => ?_
    refine and_congr_right fun hq => ?_
    by_cases hkey : [key] <+: q
    · rw [hclear q hkey (before_length hq), hsame q hkey]
    · constructor
      · exact fun hearlier =>
          absurd hearlier.2.2 (h p q uuid hp hkey ((hsame p hp).trans hearlier.2.1))
      · exact fun hearlier => absurd hearlier.2.2 (h' p q uuid hp hkey hearlier.2.1)

theorem survives_within (h : Secluded key n) (h' : Secluded key n')
    (hsame : ∀ p, [key] <+: p → uuid? p n = uuid? p n') {p : List String} (hp : [key] <+: p) :
    Survives newcomer n p ↔ Survives newcomer n' p := by
  refine forall_congr' fun a => forall_congr' fun ha => not_congr ?_
  rcases nil_or_within hp ha with rfl | hka
  · exact iff_of_false not_pruned_nil not_pruned_nil
  · exact pruned_within h h' hsame hka

/-- Nothing else is a duplicate of anything. -/
theorem not_pruned_elsewhere (hdistinct : n.Distinct) (h : Apart x.uuid n x.normalize)
    {p : List String} (hp : ¬ [x.uuid] <+: p) : ¬ Pruned newcomer (joined n x) p := by
  intro hpruned
  obtain ⟨_, q, uuid, hq, _, hpu, hqu⟩ := pruned_iff_uuid.mp hpruned
  by_cases hkey : [x.uuid] <+: q
  · exact h.secluded q p uuid hkey hp hqu hpu
  · rw [uuid?_joined_elsewhere hp] at hpu
    rw [uuid?_joined_elsewhere hkey] at hqu
    exact before_irrefl p (hdistinct q p uuid hqu hpu ▸ hq)

theorem survives_elsewhere (hdistinct : n.Distinct) (h : Apart x.uuid n x.normalize)
    {p : List String} (hp : ¬ [x.uuid] <+: p) : Survives newcomer (joined n x) p :=
  fun _ ha => not_pruned_elsewhere hdistinct h fun hkey => hp (hkey.trans ha)

/-! ## One merge -/

/-- What is put in is the same in every tree. -/
theorem own?_joined_same (n n' : Node) {p : List String} (hp : [x.uuid] <+: p) :
    own? p (joined n x) = own? p (joined n' x) := by
  obtain ⟨path, rfl⟩ := hp
  exact (own?_joined_newcomer path).trans (own?_joined_newcomer path).symm

theorem uuid?_joined_same (n n' : Node) {p : List String} (hp : [x.uuid] <+: p) :
    uuid? p (joined n x) = uuid? p (joined n' x) := by
  rw [uuid?_eq_own?, uuid?_eq_own?, own?_joined_same n n' hp]

/-- A merge leaves what is not under the snapshot's identifier. -/
theorem own?_merged_elsewhere (hc : n.Coherent) (h : Apart x.uuid n x.normalize) (now : Int)
    {p : List String} (hp : ¬ [x.uuid] <+: p) : own? p (merged n x now) = own? p n := by
  have hne : p ≠ [x.uuid] := fun he => hp (he ▸ List.prefix_refl _)
  rw [(own?_merged hc.sound.inOrder now p).1 (survives_elsewhere hc.distinct h hp),
    own?_joined_elsewhere hp, funext (dated_of_ne hne now)]
  exact Option.map_id_apply

/-- Under it the merge leaves the same in trees that have the same child to replace. -/
theorem own?_merged_within (hn : n.InOrder) (hn' : n'.InOrder) (h : Apart x.uuid n x.normalize)
    (h' : Apart x.uuid n' x.normalize) (hchild : own? [x.uuid] n = own? [x.uuid] n') (now : Int)
    {p : List String} (hp : [x.uuid] <+: p) :
    own? p (merged n x now) = own? p (merged n' x now) := by
  have hdated : dated n x now p = dated n' x now p := by
    have hdown := any_child n x.uuid (fun info => !info.isAlive) fun _ => rfl
    have hdown' := any_child n' x.uuid (fun info => !info.isAlive) fun _ => rfl
    funext info
    rw [dated, dated, hdown, hdown', hchild]
  have hsurvives : Survives (some x.uuid) (joined n x) p ↔
      Survives (some x.uuid) (joined n' x) p :=
    survives_within h.secluded h'.secluded (fun _ => uuid?_joined_same n n') hp
  by_cases hs : Survives (some x.uuid) (joined n x) p
  · rw [(own?_merged hn now p).1 hs, (own?_merged hn' now p).1 (hsurvives.mp hs),
      own?_joined_same n n' hp, hdated]
  · rw [(own?_merged hn now p).2 hs, (own?_merged hn' now p).2 fun hs' => hs (hsurvives.mpr hs')]

/-- The same is named as pruned, too. -/
theorem prune_names_within (hc : n.Coherent) (hc' : n'.Coherent)
    (h : Apart x.uuid n x.normalize) (h' : Apart x.uuid n' x.normalize) (now : Int) :
    ((placed n x now).prune (some x.uuid)).2 = ((placed n' x now).prune (some x.uuid)).2 := by
  have hkey : ∀ p, Pruned (some x.uuid) (placed n x now) p → [x.uuid] <+: p := by
    intro p hp
    rw [pruned_congr uuid?_placed] at hp
    exact Classical.byContradiction fun hkey => not_pruned_elsewhere hc.distinct h hkey hp
  refine prune_names_congr (inOrder_placed hc.sound.inOrder x now)
    (inOrder_placed hc'.sound.inOrder x now) (fun p => ?_) fun p hp => ?_
  · rw [pruned_congr uuid?_placed, pruned_congr uuid?_placed]
    by_cases hp : [x.uuid] <+: p
    · exact pruned_within h.secluded h'.secluded (fun _ => uuid?_joined_same n n') hp
    · exact iff_of_false (not_pruned_elsewhere hc.distinct h hp)
        (not_pruned_elsewhere hc'.distinct h' hp)
  · rw [uuid?_placed, uuid?_placed, uuid?_joined_same n n' (hkey p hp)]

/-! ## Two merges -/

/-- Two snapshots that a tree can take, without a common identifier. -/
structure Strangers (n x y : Node) : Prop where
  coherent : n.Coherent
  taken : x.uuid ≠ "" ∧ y.uuid ≠ ""
  first : Apart x.uuid n x.normalize
  second : Apart y.uuid n y.normalize
  strange : ∀ p q uuid, uuid? p x.normalize = some uuid → uuid? q y.normalize ≠ some uuid

namespace Strangers

theorem symm (h : Strangers n x y) : Strangers n y x :=
  ⟨h.coherent, h.taken.symm, h.second, h.first, fun p q uuid hp hq => h.strange q p uuid hq hp⟩

theorem uuid_ne (h : Strangers n x y) : x.uuid ≠ y.uuid := by
  intro he
  have hroot : uuid? [] y.normalize = some x.uuid := congrArg some ((normalize_uuid y).trans he.symm)
  exact h.strange [] [] x.uuid (congrArg some (normalize_uuid x)) hroot

theorem elsewhere (h : Strangers n x y) {p : List String} (hp : [x.uuid] <+: p) :
    ¬ [y.uuid] <+: p := by
  intro hq
  obtain ⟨path, rfl⟩ := hp
  exact h.uuid_ne (List.cons_prefix_cons.mp hq).1.symm

theorem merged_coherent (h : Strangers n x y) (now : Int) : (merged n x now).Coherent :=
  Node.merged_coherent h.coherent h.taken.1 h.first.uuid_ne now

/-- The one is as apart from the tree with the other in it. -/
theorem apart_merged (h : Strangers n x y) (now : Int) :
    Apart y.uuid (merged n x now) y.normalize := by
  intro p q uuid hp hpu
  obtain ⟨hjoined, -⟩ := (uuid?_merged h.coherent.sound.inOrder now).mp hpu
  by_cases hkey : [x.uuid] <+: p
  · obtain ⟨path, rfl⟩ := hkey
    rw [List.singleton_append, uuid?_joined_within] at hjoined
    exact h.strange path q uuid hjoined
  · rw [uuid?_joined_elsewhere hkey] at hjoined
    exact h.second p q uuid hp hjoined

/-- What the second merge leaves where it is not of itself. -/
theorem own?_second (h : Strangers n x y) (now later : Int) {p : List String}
    (hp : ¬ [y.uuid] <+: p) :
    own? p (merged (merged n x now) y later) = own? p (merged n x now) :=
  own?_merged_elsewhere (h.merged_coherent now) (h.apart_merged now) later hp

/-- A merge makes of the snapshot what it makes of it after the other. -/
theorem own?_first (h : Strangers n x y) (now later : Int) {p : List String}
    (hp : [x.uuid] <+: p) :
    own? p (merged (merged n y later) x now) = own? p (merged n x now) := by
  have hchild : own? [x.uuid] (merged n y later) = own? [x.uuid] n :=
    own?_merged_elsewhere h.coherent h.second later (h.elsewhere (List.prefix_refl _))
  exact own?_merged_within (h.symm.merged_coherent later).sound.inOrder h.coherent.sound.inOrder
    (h.symm.apart_merged later) h.first hchild now hp

theorem own?_comm (h : Strangers n x y) (now later : Int) (p : List String) :
    own? p (merged (merged n x now) y later) = own? p (merged (merged n y later) x now) := by
  by_cases hx : [x.uuid] <+: p
  · rw [h.own?_second now later (h.elsewhere hx), h.own?_first now later hx]
  by_cases hy : [y.uuid] <+: p
  · rw [h.symm.own?_second later now hx, h.symm.own?_first later now hy]
  · rw [h.own?_second now later hy, h.symm.own?_second later now hx,
      own?_merged_elsewhere h.coherent h.first now hx,
      own?_merged_elsewhere h.coherent h.second later hy]

theorem merged_comm (h : Strangers n x y) (now later : Int) :
    merged (merged n x now) y later = merged (merged n y later) x now :=
  calc merged (merged n x now) y later
      = (merged (merged n x now) y later).rollup := (rollup_rollup _).symm
    _ = (merged (merged n y later) x now).rollup :=
        rollup_congr (inOrder_merged (h.merged_coherent now).sound.inOrder y later)
          (inOrder_merged (h.symm.merged_coherent later).sound.inOrder x now)
          (h.own?_comm now later)
    _ = merged (merged n y later) x now := rollup_rollup _

/-- The outcome of a merge is the same before and after the other. -/
theorem outcome (h : Strangers n x y) (now later : Int) :
    ((merged n y later).merge x now).2 = (n.merge x now).2 := by
  have hother := h.symm.merged_coherent later
  have hmerged := h.merged_coherent now
  have hapart := h.symm.apart_merged later
  have hafter := Node.merged_coherent hother h.taken.1 hapart.uuid_ne now
  have hbefore : Keyed.find? x.uuid (merged n y later).children = Keyed.find? x.uuid n.children :=
    find?_congr hother.sound.inOrder h.coherent.sound.inOrder hother.rolled h.coherent.rolled
      fun p => own?_merged_elsewhere h.coherent h.second later (h.elsewhere ⟨p, rfl⟩)
  have hstored : Keyed.find? x.uuid (merged (merged n y later) x now).children =
      Keyed.find? x.uuid (merged n x now).children :=
    find?_congr hafter.sound.inOrder hmerged.sound.inOrder hafter.rolled hmerged.rolled
      fun p => h.own?_first now later ⟨p, rfl⟩
  rw [merge_changed h.taken.1 hapart.uuid_ne, merge_changed h.taken.1 h.first.uuid_ne, hbefore,
    hstored, prune_names_within hother h.coherent hapart h.first now]

end Strangers

/-- A snapshot with its own machine below it, and with another one twice. -/
def nestedSnapshot (top mid leaf : String) : Node :=
  machine top [(mid, machine mid [(top, machine top []), (leaf, machine leaf [])]),
    (leaf, machine leaf [])]

end Node

namespace Mesh

open Node in
/-- Merges of two snapshots that have no identifier in common with each other, or with
what else is in the tree, can be done in either order.  Each may have duplicates within
itself. -/
theorem merge_comm {m : Mesh} (h : m.Reachable) {x y : Node} (hx : Unrelated m.root x)
    (hy : Unrelated m.root y) (hxy : ∀ k ∈ x.subtree, ∀ l ∈ y.subtree, k.uuid ≠ l.uuid)
    (now later : Int) :
    ((m.root.merge x now).1.merge y later).1 = ((m.root.merge y later).1.merge x now).1 ∧
      ((m.root.merge y later).1.merge x now).2 = (m.root.merge x now).2 ∧
      ((m.root.merge x now).1.merge y later).2 = (m.root.merge y later).2 := by
  have hc := h.coherent
  have hn := hc.sound.inOrder
  by_cases hxid : x.uuid = ""
  · simp only [merge_of_refused (Or.inl hxid), and_self]
  by_cases hyid : y.uuid = ""
  · simp only [merge_of_refused (Or.inl hyid), and_self]
  have hs : Strangers m.root x y := by
    refine ⟨hc, ⟨hxid, hyid⟩, hx.apart hn, hy.apart hn, fun p q uuid hp hq => ?_⟩
    refine uuid?_normalize (fun l hl hlid => ?_) q hq
    exact uuid?_normalize (fun k hk hkid => hxy k hk l hl (hkid.trans hlid.symm)) p hp
  have hfirst : (m.root.merge x now).1 = merged m.root x now := by
    rw [merge_changed hxid hs.first.uuid_ne]
  have hsecond : (m.root.merge y later).1 = merged m.root y later := by
    rw [merge_changed hyid hs.second.uuid_ne]
  refine ⟨?_, ?_, ?_⟩
  · rw [hfirst, hsecond, merge_changed hyid (hs.apart_merged now).uuid_ne,
      merge_changed hxid (hs.symm.apart_merged later).uuid_ne]
    exact hs.merged_comm now later
  · rw [hsecond]
    exact hs.outcome now later
  · rw [hfirst]
    exact hs.symm.outcome later now

theorem crossedRun_merge_comm :
    Node.Unrelated crossedRun.root (Node.nestedSnapshot "b" "c" "e") ∧
      Node.Unrelated crossedRun.root (Node.nestedSnapshot "a" "g" "h") ∧
      (crossedRun.root.merge (Node.nestedSnapshot "b" "c" "e") 130).2.pruned = ["b", "e"] ∧
      ((crossedRun.root.merge (Node.nestedSnapshot "b" "c" "e") 130).1.merge
          (Node.nestedSnapshot "a" "g" "h") 140).1 =
        ((crossedRun.root.merge (Node.nestedSnapshot "a" "g" "h") 140).1.merge
          (Node.nestedSnapshot "b" "c" "e") 130).1 ∧
      ((crossedRun.root.merge (Node.nestedSnapshot "a" "g" "h") 140).1.merge
          (Node.nestedSnapshot "b" "c" "e") 130).2 =
        (crossedRun.root.merge (Node.nestedSnapshot "b" "c" "e") 130).2 ∧
      ((crossedRun.root.merge (Node.nestedSnapshot "b" "c" "e") 130).1.merge
          (Node.nestedSnapshot "a" "g" "h") 140).2 =
        (crossedRun.root.merge (Node.nestedSnapshot "a" "g" "h") 140).2 := by
  have hx : Node.Unrelated crossedRun.root (Node.nestedSnapshot "b" "c" "e") := by decide
  have hy : Node.Unrelated crossedRun.root (Node.nestedSnapshot "a" "g" "h") := by decide
  have hxy : ∀ k ∈ (Node.nestedSnapshot "b" "c" "e").subtree,
      ∀ l ∈ (Node.nestedSnapshot "a" "g" "h").subtree, k.uuid ≠ l.uuid := by decide
  exact ⟨hx, hy, by decide, merge_comm crossedRun_reachable hx hy hxy 130 140⟩

end Mesh
end FleetMesh
