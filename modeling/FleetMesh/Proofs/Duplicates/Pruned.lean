/-
Which positions of a tree are duplicates.

A position is `Pruned` if what stands there is to be removed because its
identifier is met before, and `Clear` if nothing above it is pruned.  The two
depend on each other: only what is clear can be a duplicate, or make another
position one.  What is above a position is nearer to the root, so the definition
is a recursion on the length of the path, and it does not mention levels, a queue
or a set of identifiers met.
-/
import FleetMesh.Proofs.Duplicates.Order
import FleetMesh.Proofs.Tree.Paths

namespace FleetMesh
namespace Node

theorem length_lt_of_above {a p : List String} (h : a <+: p ∧ a ≠ p) : a.length < p.length :=
  Nat.lt_of_le_of_ne h.1.length_le fun hlen => h.2 (h.1.eq_of_length hlen)

/-- Whether what stands at a position is removed as a duplicate: nothing above it
is, and a position that comes before holds the same identifier and has nothing
removed above it either.  The root comes before all others. -/
def Pruned (newcomer : Option String) (n : Node) (p : List String) : Prop :=
  (∀ a, (_ : a <+: p ∧ a ≠ p) → ¬ Pruned newcomer n a) ∧
    ∃ q, ∃ _ : Before newcomer q p, (∀ a, (_ : a <+: q ∧ a ≠ q) → ¬ Pruned newcomer n a) ∧
      ∃ m k, at? p n = some m ∧ at? q n = some k ∧ k.uuid = m.uuid
termination_by p.length
decreasing_by
  · exact length_lt_of_above ‹_›
  · exact Nat.lt_of_lt_of_le (length_lt_of_above ‹_›) (before_length ‹_›)

/-- Whether nothing above a position is removed. -/
def Clear (newcomer : Option String) (n : Node) (p : List String) : Prop :=
  ∀ a, a <+: p → a ≠ p → ¬ Pruned newcomer n a

variable {newcomer : Option String} {n : Node} {p q : List String}

theorem pruned_iff :
    Pruned newcomer n p ↔ Clear newcomer n p ∧ ∃ q m k, Before newcomer q p ∧
      Clear newcomer n q ∧ at? p n = some m ∧ at? q n = some k ∧ k.uuid = m.uuid := by
  rw [Pruned]
  constructor
  · intro h
    obtain ⟨hp, q, hq, hqc, m, k, hm⟩ := h
    exact ⟨fun a ha hne => hp a ⟨ha, hne⟩, q, m, k, hq, fun a ha hne => hqc a ⟨ha, hne⟩, hm⟩
  · intro h
    obtain ⟨hp, q, m, k, hq, hqc, hm⟩ := h
    exact ⟨fun a ha => hp a ha.1 ha.2, q, hq, fun a ha => hqc a ha.1 ha.2, m, k, hm⟩

theorem Pruned.clear (h : Pruned newcomer n p) : Clear newcomer n p := (pruned_iff.mp h).1

theorem Pruned.occurs (h : Pruned newcomer n p) : ∃ m, at? p n = some m := by
  obtain ⟨_, _, m, _, _, _, hm, _⟩ := pruned_iff.mp h
  exact ⟨m, hm⟩

/-- Of two clear positions with one identifier the later one is pruned. -/
theorem pruned_of_before {m k : Node} (hp : Clear newcomer n p) (hq : Clear newcomer n q)
    (hm : at? p n = some m) (hk : at? q n = some k) (hid : k.uuid = m.uuid)
    (h : Before newcomer q p) : Pruned newcomer n p :=
  pruned_iff.mpr ⟨hp, q, m, k, h, hq, hm, hk, hid⟩

theorem not_pruned_nil : ¬ Pruned newcomer n [] := by
  intro h
  obtain ⟨_, q, _, _, hq, _⟩ := pruned_iff.mp h
  have hnil : q = [] := List.length_eq_zero_iff.mp (Nat.le_zero.mp (before_length hq))
  exact before_irrefl [] (hnil ▸ hq)

theorem clear_nil : Clear newcomer n [] := fun _ ha hne _ => hne (List.prefix_nil.mp ha)

theorem clear_append {k : String} :
    Clear newcomer n (p ++ [k]) ↔ Clear newcomer n p ∧ ¬ Pruned newcomer n p := by
  constructor
  · intro h
    refine ⟨fun a ha _ => ?_, h p (List.prefix_append _ _) fun e => ?_⟩
    · refine h a (ha.trans (List.prefix_append _ _)) fun e => ?_
      have hlen := ha.length_le
      rw [e, List.length_append, List.length_singleton] at hlen
      omega
    · have hlen := congrArg List.length e
      rw [List.length_append, List.length_singleton] at hlen
      omega
  · intro h a ha hne
    obtain ⟨hc, hp⟩ := h
    rcases List.prefix_concat_iff.mp ha with e | ha
    · exact absurd e hne
    · by_cases e : a = p
      · exact e ▸ hp
      · exact hc a ha e

/-- Whether the search keeps what stands at a position: nothing is removed there
or above. -/
def Survives (newcomer : Option String) (n : Node) (p : List String) : Prop :=
  ∀ a, a <+: p → ¬ Pruned newcomer n a

theorem survives_iff : Survives newcomer n p ↔ Clear newcomer n p ∧ ¬ Pruned newcomer n p := by
  constructor
  · exact fun h => ⟨fun a ha _ => h a ha, h p (List.prefix_refl p)⟩
  · intro h a ha
    obtain ⟨hc, hp⟩ := h
    by_cases e : a = p
    · exact e ▸ hp
    · exact hc a ha e

theorem survives_nil : Survives newcomer n [] := survives_iff.mpr ⟨clear_nil, not_pruned_nil⟩

/-- Surviving positions hold different identifiers. -/
theorem survives_unique {m k : Node} (hp : Survives newcomer n p) (hq : Survives newcomer n q)
    (hm : at? p n = some m) (hk : at? q n = some k) (hid : k.uuid = m.uuid) : p = q := by
  obtain ⟨hpc, hpp⟩ := survives_iff.mp hp
  obtain ⟨hqc, hqp⟩ := survives_iff.mp hq
  apply Classical.byContradiction
  intro hne
  rcases before_total newcomer hne with h | h
  · exact hqp (pruned_of_before hqc hpc hk hm hid.symm h)
  · exact hpp (pruned_of_before hpc hqc hm hk hid h)

/-- A pruned position is the topmost one of what is removed. -/
theorem pruned_iff_top :
    Pruned newcomer n p ↔ ¬ Survives newcomer n p ∧ Survives newcomer n p.dropLast := by
  rcases List.eq_nil_or_concat p with rfl | ⟨a, k, rfl⟩
  · exact ⟨fun h => absurd h not_pruned_nil, fun h => absurd survives_nil h.1⟩
  · have hc : Clear newcomer n (a ++ [k]) ↔ Survives newcomer n a :=
      clear_append.trans survives_iff.symm
    rw [List.concat_eq_append, List.dropLast_concat, ← hc, survives_iff]
    constructor
    · exact fun h => ⟨fun hs => hs.2 h, h.clear⟩
    · intro h
      obtain ⟨h, hc⟩ := h
      exact Classical.byContradiction fun hp => h ⟨hc, hp⟩

/-- The root is met first, and then the positions below it. -/
theorem pruned_below {m : Node} (hp : p ≠ [])
    (hm : at? p n = some m) (hc : Clear newcomer n p) :
    Pruned newcomer n p ↔ m.uuid = n.uuid ∨
      ∃ q k, q ≠ [] ∧ at? q n = some k ∧ k.uuid = m.uuid ∧ Clear newcomer n q ∧
        Before newcomer q p := by
  constructor
  · intro h
    obtain ⟨_, q, m', k, hq, hqc, hm', hk, hid⟩ := pruned_iff.mp h
    obtain rfl : m' = m := Option.some.inj (hm'.symm.trans hm)
    by_cases hnil : q = []
    · subst hnil
      obtain rfl : n = k := Option.some.inj hk
      exact Or.inl hid.symm
    · exact Or.inr ⟨q, k, hnil, hk, hid, hqc, hq⟩
  · intro h
    rcases h with hid | ⟨q, k, _, hk, hid, hqc, hq⟩
    · exact pruned_of_before hc clear_nil hm rfl hid.symm (Or.inl (List.length_pos_iff.mpr hp))
    · exact pruned_of_before hc hqc hm hk hid hq

end Node
end FleetMesh
