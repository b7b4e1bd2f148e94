/-
Which position of an identifier survives.

A tree has finitely many positions, so among the clear ones of an identifier there
is a first, and that one survives (`exists_survivor`).  Which positions are pruned
depends on the identifiers at the positions alone (`pruned_congr`).
-/
import FleetMesh.Proofs.Duplicates.Pruned
import Mathlib.Order.WellFoundedSet

namespace FleetMesh
namespace Node

variable {newcomer : Option String} {n n' : Node} {p q : List String}

/-! ## The first position -/

theorem finite_positions (n : Node) : {p | ∃ m, at? p n = some m}.Finite := by
  induction n using induct with
  | step n ih =>
    have hbelow := Set.Finite.biUnion (List.finite_toSet n.children)
      (fun e he => (ih e he).image (List.cons e.1))
    refine Set.Finite.subset ((Set.finite_singleton []).union hbelow) ?_
    intro p h
    obtain ⟨m, hm⟩ := h
    cases p with
    | nil => exact Or.inl rfl
    | cons key path =>
      obtain ⟨c, hc, hm⟩ := at?_cons_eq_some.mp hm
      exact Or.inr (Set.mem_biUnion (Keyed.mem_of_find? hc) ⟨path, ⟨m, hm⟩, rfl⟩)

instance (newcomer : Option String) : IsStrictOrder (List String) (Before newcomer) where
  irrefl := before_irrefl
  trans _ _ _ := before_trans

/-- An identifier that is met at a clear position survives there or earlier. -/
theorem exists_survivor {m : Node} (hq : Clear newcomer n q) (hm : at? q n = some m) :
    ∃ p k, Survives newcomer n p ∧ at? p n = some k ∧ k.uuid = m.uuid ∧
      (p = q ∨ Before newcomer p q) := by
  have hwf : Set.WellFoundedOn {p | ∃ m, at? p n = some m} (Before newcomer) :=
    (finite_positions n).wellFoundedOn
  refine hwf.induction (P := fun q => ∀ m, Clear newcomer n q → at? q n = some m →
    ∃ p k, Survives newcomer n p ∧ at? p n = some k ∧ k.uuid = m.uuid ∧
      (p = q ∨ Before newcomer p q)) ⟨m, hm⟩ ?_ m hq hm
  -- a pruned position has an earlier one with its identifier, and the first is not pruned
  intro q _ ih m hq hm
  by_cases hp : Pruned newcomer n q
  · obtain ⟨_, r, m', k, hr, hrc, hm', hk, hid⟩ := pruned_iff.mp hp
    obtain rfl : m' = m := Option.some.inj (hm'.symm.trans hm)
    obtain ⟨p, j, hps, hj, hjd, hpr⟩ := ih r ⟨k, hk⟩ hr k hrc hk
    refine ⟨p, j, hps, hj, hjd.trans hid, Or.inr ?_⟩
    rcases hpr with rfl | hpr
    · exact hr
    · exact before_trans hpr hr
  · exact ⟨q, m, survives_iff.mpr ⟨hq, hp⟩, hm, rfl, Or.inl rfl⟩

/-- At one distance from the root what was in the tree comes first. -/
theorem entering_of_before (h : Before newcomer p q) (hlen : p.length = q.length)
    (hp : Entering newcomer p) : Entering newcomer q := by
  rcases h with h | ⟨_, ⟨h, _⟩ | ⟨h, _⟩⟩
  · exact absurd hlen (Nat.ne_of_lt h)
  · exact absurd hp h
  · exact h.mp hp

/-! ## Identifiers decide -/

theorem pruned_iff_uuid :
    Pruned newcomer n p ↔ Clear newcomer n p ∧ ∃ q uuid, Before newcomer q p ∧
      Clear newcomer n q ∧ uuid? p n = some uuid ∧ uuid? q n = some uuid := by
  rw [pruned_iff]
  constructor
  · intro h
    obtain ⟨hp, q, m, k, hq, hqc, hm, hk, hid⟩ := h
    exact ⟨hp, q, m.uuid, hq, hqc, uuid?_eq_some.mpr ⟨m, hm, rfl⟩, uuid?_eq_some.mpr ⟨k, hk, hid⟩⟩
  · intro h
    obtain ⟨hp, q, uuid, hq, hqc, hpu, hqu⟩ := h
    obtain ⟨m, hm, rfl⟩ := uuid?_eq_some.mp hpu
    obtain ⟨k, hk, hid⟩ := uuid?_eq_some.mp hqu
    exact ⟨hp, q, m, k, hq, hqc, hm, hk, hid⟩

/-- Which positions are pruned depends on the identifiers alone. -/
theorem pruned_congr (h : ∀ p, uuid? p n = uuid? p n') (p : List String) :
    Pruned newcomer n p ↔ Pruned newcomer n' p := by
  -- what decides about a position is above it or above an earlier one, so it is shorter
  induction hlen : p.length using Nat.strong_induction_on generalizing p with
  | _ length ih =>
    have hclear : ∀ q, q.length ≤ p.length → (Clear newcomer n q ↔ Clear newcomer n' q) := by
      intro q hq
      refine forall_congr' fun a => forall_congr' fun ha => forall_congr' fun hne => ?_
      have hlt := length_lt_of_above ⟨ha, hne⟩
      exact not_congr (ih a.length (by omega) a rfl)
    rw [pruned_iff_uuid, pruned_iff_uuid, hclear p (Nat.le_refl _), h p]
    refine and_congr_right fun _ => exists_congr fun q => exists_congr fun uuid => ?_
    refine and_congr_right fun hq => ?_
    rw [hclear q (before_length hq), h q]

theorem survives_congr (h : ∀ p, uuid? p n = uuid? p n') (p : List String) :
    Survives newcomer n p ↔ Survives newcomer n' p :=
  forall_congr' fun a => forall_congr' fun _ => not_congr (pruned_congr h a)

end Node
end FleetMesh
