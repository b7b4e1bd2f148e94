/-
Cutting a tree at a depth.

A depth that is not positive is no limit, so of two depths the `shallower` is the one
that leaves fewer levels.  Cutting twice is cutting once at the shallower depth
(`truncate_truncate`).  The statuses are set anew by each cut, but a cut does not look
at them, and so the second one may as well have been made first
(`rollup_keepLevels_rollup`).

A cut at a positive depth keeps the paths up to that depth and no others, with the own
records they had (`CutOff`).
-/
import FleetMesh.Proofs.Tree.Readings
import Mathlib.Data.ENat.Lattice

namespace FleetMesh
namespace Node

/-- How many levels below the root a depth leaves. -/
def reach (depth : Int) : ℕ∞ := if depth ≤ 0 then ⊤ else depth.toNat

/-- Of two depths the one that leaves fewer levels. -/
def shallower (a b : Int) : Int :=
  if a ≤ 0 then b else if b ≤ 0 then a else min a b

/-- The outcome of cutting `n` at a depth. -/
structure CutOff (n : Node) (depth : Int) (after : Node) : Prop where
  /-- What is kept, and where.  Of the own records nothing is changed. -/
  records : ∀ p, own? p after = if (p.length : Int) ≤ depth then own? p n else none
  /-- No key comes to stand for two nodes, so the paths tell of all that is kept. -/
  ordered : n.InOrder → after.InOrder
  statuses : after.Everywhere Rated
  /-- What stands at the cut has nothing below it to take a status from. -/
  ends : ∀ p m, at? p after = some m → (p.length : Int) = depth →
    m.globalStatus = localStatus m.toNodeInfo

variable {n m : Node} {a b depth : Int}

/-! ## Levels -/

theorem reach_shallower (a b : Int) : reach (shallower a b) = min (reach a) (reach b) := by
  rw [shallower, reach, reach, reach]
  by_cases ha : a ≤ 0
  · rw [if_pos ha, if_pos ha, min_eq_right le_top]
  · by_cases hb : b ≤ 0
    · rw [if_neg ha, if_pos hb, if_pos hb, if_neg ha, min_eq_left le_top]
    · have hmin : ¬ min a b ≤ 0 := by omega
      have hnat : (min a b).toNat = min a.toNat b.toNat := by omega
      rw [if_neg ha, if_neg hb, if_neg hmin, if_neg ha, if_neg hb, hnat, Nat.mono_cast.map_min]

theorem keepLevels_keepLevels (a b : Nat) (n : Node) :
    keepLevels a (keepLevels b n) = keepLevels (min a b) n := by
  induction a generalizing b n with
  | zero =>
    rw [Nat.zero_min]
    cases b <;> rfl
  | succ a ih =>
    cases b with
    | zero => rfl
    | succ b =>
      have hchildren : Keyed.mapValues (keepLevels a) (Keyed.mapValues (keepLevels b) n.children)
          = Keyed.mapValues (keepLevels (min a b)) n.children := by
        rw [Keyed.mapValues, Keyed.mapValues, List.map_map]
        exact List.map_congr_left fun e _ => congrArg (Prod.mk e.1) (ih b e.2)
      rw [Nat.succ_min_succ, keepLevels, keepLevels, keepLevels, hchildren]

/-- The statuses that a cut finds make no difference to those it leaves. -/
theorem rollup_keepLevels_rollup (depth : Nat) (n : Node) :
    rollup (keepLevels depth (rollup n)) = rollup (keepLevels depth n) := by
  induction depth generalizing n with
  | zero =>
    rw [rollup_eq (keepLevels 0 (rollup n)), rollup_eq (keepLevels 0 n)]
    exact rate_congr (rollup_own n) rfl
  | succ depth ih =>
    rw [rollup_eq (keepLevels (depth + 1) (rollup n)), rollup_eq (keepLevels (depth + 1) n)]
    refine rate_congr (rollup_own n) ?_
    show Keyed.mapValues rollup (Keyed.mapValues (keepLevels depth) (rollup n).children)
      = Keyed.mapValues rollup (Keyed.mapValues (keepLevels depth) n.children)
    rw [rollup_children, Keyed.mapValues, Keyed.mapValues, Keyed.mapValues, Keyed.mapValues,
      Keyed.mapValues, List.map_map, List.map_map, List.map_map]
    exact List.map_congr_left fun e _ => congrArg (Prod.mk e.1) (ih e.2)

theorem truncate_of_nonpos (h : depth ≤ 0) (n : Node) : n.truncate depth = n := if_pos h

theorem truncate_of_pos (h : 1 ≤ depth) (n : Node) :
    n.truncate depth = rollup (keepLevels depth.toNat n) := if_neg (by omega)

/-- Two cuts are one. -/
theorem truncate_truncate (a b : Int) (n : Node) :
    (n.truncate b).truncate a = n.truncate (shallower a b) := by
  rw [shallower]
  by_cases ha : a ≤ 0
  · rw [if_pos ha, truncate_of_nonpos ha]
  · by_cases hb : b ≤ 0
    · rw [if_neg ha, if_pos hb, truncate_of_nonpos hb]
    · have hmin : (min a b).toNat = min a.toNat b.toNat := by omega
      rw [if_neg ha, if_neg hb, truncate_of_pos (by omega), truncate_of_pos (by omega),
        truncate_of_pos (by omega), rollup_keepLevels_rollup, keepLevels_keepLevels, hmin]

/-! ## Paths -/

theorem at?_keepLevels (depth : Nat) (p : List String) (n : Node) :
    at? p (keepLevels depth n) =
      if p.length ≤ depth then (at? p n).map (keepLevels (depth - p.length)) else none := by
  induction p generalizing depth n with
  | nil => rfl
  | cons key p ih =>
    rw [at?_cons, at?_cons]
    cases depth with
    | zero => rfl
    | succ depth =>
      have hchildren : (keepLevels (depth + 1) n).children
        = Keyed.mapValues (keepLevels depth) n.children := rfl
      rw [hchildren, Keyed.find?_mapValues, List.length_cons, Nat.succ_sub_succ]
      simp only [Nat.succ_le_succ_iff]
      cases Keyed.find? key n.children with
      | none => simp
      | some c => exact ih depth c

theorem own?_keepLevels (depth : Nat) (p : List String) (n : Node) :
    own? p (keepLevels depth n) = if p.length ≤ depth then own? p n else none := by
  rw [own?, own?, at?_keepLevels]
  split
  · rw [Option.map_map]
    exact congrArg (fun f => Option.map f (at? p n)) (funext (keepLevels_own _))
  · rfl

theorem truncate_cutOff (h : 1 ≤ depth) (n : Node) : CutOff n depth (n.truncate depth) := by
  have hord : n.InOrder → (n.truncate depth).InOrder := Everywhere.truncate stable_ordered depth
  rw [truncate_of_pos h] at hord ⊢
  refine ⟨fun p => ?_, hord, rated_rollup _, fun p m hm hp => ?_⟩
  · have hle : p.length ≤ depth.toNat ↔ (p.length : Int) ≤ depth := by omega
    rw [own?_rollup, own?_keepLevels]
    simp only [hle]
  · have hlen : p.length = depth.toNat := by omega
    rw [at?_rollup, at?_keepLevels, if_pos (Nat.le_of_eq hlen), hlen, Nat.sub_self,
      Option.map_map, Option.map_eq_some_iff] at hm
    obtain ⟨k, _, rfl⟩ := hm
    rw [Function.comp_apply, rollup_eq]
    rfl

/-- Cuts compose, and a cut leaves the levels of its depth. -/
theorem truncate_levels (n : Node) :
    (∀ depth ≤ 0, n.truncate depth = n) ∧
      (∀ a b, reach (shallower a b) = min (reach a) (reach b) ∧
        (n.truncate b).truncate a = n.truncate (shallower a b)) ∧
      ∀ depth, 1 ≤ depth → CutOff n depth (n.truncate depth) :=
  ⟨fun _ h => truncate_of_nonpos h n, fun a b => ⟨reach_shallower a b, truncate_truncate a b n⟩,
    fun _ h => truncate_cutOff h n⟩

/-- A chain of four machines.  The last one has a probe that fails, and the one above it
is down. -/
def brokenChain : Node :=
  let machine (uuid : String) (children : List (String × Node)) : Node :=
    { Node.new uuid ("host-" ++ uuid) "" 0 with children := children }
  let broken := ((machine "d" []).submit (Reading.plain "disk" Status.error 3 "" (.ofUnix 0))).1
  rollup (machine "a" [("b", machine "b" [("c", { machine "c" [("d", broken)] with
    isAlive := false })])])

theorem brokenChain_levels :
    brokenChain.subtree.map (fun m => m.globalStatus) = [500, 500, 500, 500] ∧
      (brokenChain.truncate 2).subtree.map (fun m => m.globalStatus) = [499, 499, 499] ∧
      ((brokenChain.truncate 2).truncate 1).subtree.map (fun m => m.globalStatus) = [100, 100] ∧
      (brokenChain.truncate 2).truncate 1 = brokenChain.truncate (shallower 1 2) ∧
      (1 : Int) ≤ 2 ∧ CutOff brokenChain 2 (brokenChain.truncate 2) := by
  obtain ⟨_, hcompose, hlevels⟩ := truncate_levels brokenChain
  exact ⟨by decide, by decide, by decide, (hcompose 1 2).2, by decide, hlevels 2 (by decide)⟩

end Node
end FleetMesh
