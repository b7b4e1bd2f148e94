/-
A search of a tree that an earlier search has thinned.

A tree is `Reduced` from another if what it lacks is below or at a position that
the search of the other prunes.  The survivors are all there, and every identifier
at a clear position has its first position among them, so nothing gains or loses
an earlier position that counts: where the reduced tree has a node, the two
searches agree (`survives_reduced`).
-/
import FleetMesh.Proofs.Duplicates.Survivor

namespace FleetMesh
namespace Node

variable {newcomer : Option String} {n n' : Node}

/-- The one tree is the other without some of what does not survive. -/
def Reduced (newcomer : Option String) (n n' : Node) : Prop :=
  ∀ p, uuid? p n' = uuid? p n ∨ uuid? p n' = none ∧ ¬ Survives newcomer n p

namespace Reduced

theorem uuid (h : Reduced newcomer n n') {p : List String} {uuid : String}
    (hp : uuid? p n' = some uuid) : uuid? p n = some uuid := by
  rcases h p with he | ⟨hnone, _⟩
  · rw [← he]
    exact hp
  · cases hnone.symm.trans hp

theorem kept (h : Reduced newcomer n n') {p : List String} (hs : Survives newcomer n p) :
    uuid? p n' = uuid? p n :=
  (h p).resolve_right fun hgone => hgone.2 hs

end Reduced

theorem uuid?_of_above {a p : List String} {uuid : String} (ha : a <+: p)
    (hp : uuid? p n = some uuid) : ∃ other, uuid? a n = some other := by
  obtain ⟨m, hm, _⟩ := uuid?_eq_some.mp hp
  obtain ⟨k, hk⟩ := at?_of_above ha hm
  exact ⟨k.uuid, uuid?_eq_some.mpr ⟨k, hk, rfl⟩⟩

/-- Where a reduced tree has a node, the same is pruned. -/
theorem pruned_reduced (h : Reduced newcomer n n') (p : List String) {uuid : String}
    (hp : uuid? p n' = some uuid) : Pruned newcomer n' p ↔ Pruned newcomer n p := by
  induction hlen : p.length using Nat.strong_induction_on generalizing p uuid with
  | _ length ih =>
    -- above a node of the reduced tree there are nodes of it, and they are nearer to the root
    have hclear : ∀ q other, q.length ≤ p.length → uuid? q n' = some other →
        (Clear newcomer n' q ↔ Clear newcomer n q) := by
      intro q other hq hu
      refine forall_congr' fun a => forall_congr' fun ha => forall_congr' fun hne => ?_
      obtain ⟨_, habove⟩ := uuid?_of_above ha hu
      have hlt := length_lt_of_above ⟨ha, hne⟩
      exact not_congr (ih a.length (by omega) a habove rfl)
    rw [pruned_iff_uuid, pruned_iff_uuid, hclear p uuid (Nat.le_refl _) hp]
    refine and_congr_right fun _ => ?_
    constructor
    · intro hearlier
      obtain ⟨q, u, hq, hqc, hpu, hqu⟩ := hearlier
      have hqc' := (hclear q u (before_length hq) hqu).mp hqc
      exact ⟨q, u, hq, hqc', h.uuid hpu, h.uuid hqu⟩
    · intro hearlier
      obtain ⟨q, u, hq, hqc, hpu, hqu⟩ := hearlier
      -- the earlier position may be gone, but then its identifier survives even earlier
      obtain ⟨k, hk, rfl⟩ := uuid?_eq_some.mp hqu
      obtain ⟨r, j, hr, hj, hjd, hrq⟩ := exists_survivor hqc hk
      have hrp : Before newcomer r p := by
        rcases hrq with rfl | hrq
        · exact hq
        · exact before_trans hrq hq
      have hru : uuid? r n' = some k.uuid := (h.kept hr).trans (uuid?_eq_some.mpr ⟨j, hj, hjd⟩)
      refine ⟨r, k.uuid, hrp, ?_, ?_, hru⟩
      · exact (hclear r k.uuid (before_length hrp) hru).mpr (survives_iff.mp hr).1
      · rw [hp, ← h.uuid hp, hpu]

theorem survives_reduced (h : Reduced newcomer n n') {p : List String} {uuid : String}
    (hp : uuid? p n' = some uuid) : Survives newcomer n' p ↔ Survives newcomer n p := by
  refine forall_congr' fun a => forall_congr' fun ha => ?_
  obtain ⟨_, habove⟩ := uuid?_of_above ha hp
  exact not_congr (pruned_reduced h a habove)

end Node
end FleetMesh
