/-
The order in which positions of a tree are visited.

A position is the path that leads to it.  Nearer to the root comes first; at the
same distance what was in the tree comes before what came with the newcomer, and
otherwise the keys decide.  `Before` is that order, and it is a strict total
order of all paths.

A level of the search is visited in this order because `Before` passes from the
nodes of a level to their children (`before_children`) and holds among the
children of one node (`before_siblings`).
-/
import FleetMesh.Node

namespace FleetMesh
namespace Node

/-- Whether a path leads to the newcomer or to something below it. -/
def Entering (newcomer : Option String) (path : List String) : Prop :=
  ∃ key, newcomer = some key ∧ [key] <+: path

/-- Whether the one path is visited before the other. -/
def Before (newcomer : Option String) (p q : List String) : Prop :=
  p.length < q.length ∨ p.length = q.length ∧
    (¬ Entering newcomer p ∧ Entering newcomer q ∨
      (Entering newcomer p ↔ Entering newcomer q) ∧ List.Lex (fun a b => a < b) p q)

variable {newcomer : Option String} {p q r : List String}

theorem entering_append (hp : p ≠ []) (s : List String) :
    Entering newcomer (p ++ s) ↔ Entering newcomer p := by
  obtain ⟨k, rest, rfl⟩ := List.exists_cons_of_ne_nil hp
  rw [Entering, Entering, List.cons_append]
  simp only [List.cons_prefix_cons, List.nil_prefix, and_true]

theorem before_length (h : Before newcomer p q) : p.length ≤ q.length := by
  rcases h with h | h
  · exact Nat.le_of_lt h
  · exact Nat.le_of_eq h.1

theorem before_irrefl (p : List String) : ¬ Before newcomer p p := by
  intro h
  rcases h with h | ⟨_, ⟨h, h'⟩ | ⟨_, h⟩⟩
  · exact Nat.lt_irrefl _ h
  · exact h h'
  · exact List.lex_irrefl String.lt_irrefl p h

theorem before_trans (hpq : Before newcomer p q) (hqr : Before newcomer q r) :
    Before newcomer p r := by
  rcases hpq with hpq | ⟨hlen, hpq⟩
  · exact Or.inl (Nat.lt_of_lt_of_le hpq (before_length hqr))
  · rcases hqr with hqr | ⟨hlen', hqr⟩
    · exact Or.inl (hlen ▸ hqr)
    · refine Or.inr ⟨hlen.trans hlen', ?_⟩
      rcases hpq with ⟨hp, hq⟩ | ⟨he, hlex⟩
      · rcases hqr with ⟨hq', _⟩ | ⟨he', _⟩
        · exact absurd hq hq'
        · exact Or.inl ⟨hp, he'.mp hq⟩
      · rcases hqr with ⟨hq, hr⟩ | ⟨he', hlex'⟩
        · exact Or.inl ⟨fun hp => hq (he.mp hp), hr⟩
        · exact Or.inr ⟨he.trans he', List.lex_trans String.lt_trans hlex hlex'⟩

theorem before_asymm (hpq : Before newcomer p q) : ¬ Before newcomer q p :=
  fun hqp => before_irrefl p (before_trans hpq hqp)

/-- Of two different paths of one length the keys put one first. -/
theorem lex_total : ∀ {p q : List String}, p.length = q.length → p ≠ q →
    List.Lex (fun a b => a < b) p q ∨ List.Lex (fun a b => a < b) q p
  | [], [], _, hne => absurd rfl hne
  | [], _ :: _, hlen, _ => absurd hlen (Nat.ne_of_lt (Nat.succ_pos _))
  | _ :: _, [], hlen, _ => absurd hlen (Nat.ne_of_gt (Nat.succ_pos _))
  | a :: p, b :: q, hlen, hne => by
    by_cases hab : a < b
    · exact Or.inl (List.Lex.rel hab)
    · by_cases hba : b < a
      · exact Or.inr (List.Lex.rel hba)
      · have he : a = b :=
          String.le_antisymm (String.not_lt.mp hba) (String.not_lt.mp hab)
        subst he
        have htail : p ≠ q := fun h => hne (congrArg (List.cons a) h)
        rcases lex_total (Nat.succ.inj hlen) htail with h | h
        · exact Or.inl (List.Lex.cons h)
        · exact Or.inr (List.Lex.cons h)

theorem before_total (newcomer : Option String) (hne : p ≠ q) :
    Before newcomer p q ∨ Before newcomer q p := by
  rcases Nat.lt_trichotomy p.length q.length with hlen | hlen | hlen
  · exact Or.inl (Or.inl hlen)
  · by_cases he : Entering newcomer p ↔ Entering newcomer q
    · rcases lex_total hlen hne with h | h
      · exact Or.inl (Or.inr ⟨hlen, Or.inr ⟨he, h⟩⟩)
      · exact Or.inr (Or.inr ⟨hlen.symm, Or.inr ⟨he.symm, h⟩⟩)
    · by_cases hp : Entering newcomer p
      · have hq : ¬ Entering newcomer q := fun hq => he ⟨fun _ => hq, fun _ => hp⟩
        exact Or.inr (Or.inr ⟨hlen.symm, Or.inl ⟨hq, hp⟩⟩)
      · have hq : Entering newcomer q := Classical.byContradiction fun hq =>
          he ⟨fun h => absurd h hp, fun h => absurd h hq⟩
        exact Or.inl (Or.inr ⟨hlen, Or.inl ⟨hp, hq⟩⟩)
  · exact Or.inr (Or.inl hlen)

/-! ## From one level to the next -/

theorem lex_append {a b : List String} (hlen : p.length = q.length)
    (h : List.Lex (fun a b => a < b) p q) : List.Lex (fun a b => a < b) (p ++ a) (q ++ b) := by
  induction h with
  | nil => exact absurd hlen (Nat.ne_of_lt (Nat.succ_pos _))
  | rel hab => exact List.Lex.rel hab
  | cons _ ih => exact List.Lex.cons (ih (Nat.succ.inj hlen))

theorem before_children (hp : p ≠ []) (hlen : p.length = q.length)
    (h : Before newcomer p q) (j k : String) : Before newcomer (p ++ [j]) (q ++ [k]) := by
  have hq : q ≠ [] := fun e => hp (List.length_eq_zero_iff.mp (by rw [hlen, e]; rfl))
  rcases h with h | ⟨_, h⟩
  · exact absurd hlen (Nat.ne_of_lt h)
  · refine Or.inr ⟨by rw [List.length_append, List.length_append, hlen]; rfl, ?_⟩
    rw [entering_append hp, entering_append hq]
    rcases h with h | ⟨he, h⟩
    · exact Or.inl h
    · exact Or.inr ⟨he, lex_append hlen h⟩

theorem before_siblings (hp : p ≠ []) {j k : String} (h : j < k) :
    Before newcomer (p ++ [j]) (p ++ [k]) := by
  refine Or.inr ⟨by rw [List.length_append, List.length_append]; rfl, Or.inr ⟨?_, ?_⟩⟩
  · rw [entering_append hp, entering_append hp]
  · exact List.append_left_lt (List.Lex.rel h)

end Node
end FleetMesh
