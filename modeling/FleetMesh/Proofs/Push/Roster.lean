/-
What a roster's operations do to its sessions.

`session?` is asked for a machine and a token.  Each operation is described by
what that question answers afterwards.
-/
import FleetMesh.Proofs.Keyed
import FleetMesh.Push.Roster

namespace FleetMesh

namespace Push
namespace Roster

variable {r : Roster} {uuid token : String}

theorem session?_eq_some {s : Session} :
    r.session? uuid token = some s ↔ Keyed.find? token r.sessions = some s ∧ s.uuid = uuid := by
  rw [session?, Option.bind_eq_some_iff]
  constructor
  · intro h
    obtain ⟨e, he, h⟩ := h
    split at h
    · obtain rfl := Option.some.inj h
      exact ⟨he, ‹_›⟩
    · exact nomatch h
  · intro h
    obtain ⟨he, rfl⟩ := h
    exact ⟨s, he, if_pos rfl⟩

theorem ordered_dropSessions (h : Keyed.Ordered r.sessions) (uuid : String) :
    Keyed.Ordered (r.dropSessions uuid).sessions :=
  List.Pairwise.filter _ h

theorem find?_dropSessions (h : Keyed.Ordered r.sessions) {s : Session} :
    Keyed.find? token (r.dropSessions uuid).sessions = some s ↔
      Keyed.find? token r.sessions = some s ∧ s.uuid ≠ uuid := by
  rw [dropSessions, Keyed.find?_filter h (fun s => s.uuid != uuid), Option.filter_eq_some_iff]
  simp

theorem find?_openSession (h : Keyed.Ordered r.sessions) (now : Int) {other : String}
    {s : Session} :
    Keyed.find? other (r.openSession token uuid now).sessions = some s ↔
      token = other ∧ s = ⟨uuid, now⟩ ∨
        token ≠ other ∧ Keyed.find? other r.sessions = some s ∧ s.uuid ≠ uuid := by
  rw [openSession, Keyed.find?_insert, ← find?_dropSessions h]
  by_cases hk : token = other
  · rw [if_pos hk]
    simp [hk, eq_comm]
  · rw [if_neg hk]
    simp [hk]

theorem find?_closeSession (h : Keyed.Ordered r.sessions) {other : String} {s : Session} :
    Keyed.find? other (r.closeSession token).sessions = some s ↔
      Keyed.find? other r.sessions = some s ∧ token ≠ other := by
  rw [closeSession, Keyed.find?_erase h]
  by_cases hk : token = other <;> simp [hk]

end Roster

theorem Ledger.ordered_allowed {l : Ledger} {allowed : List (String × String)}
    (h : l.allowed? = some allowed) : Keyed.Ordered allowed := by
  rw [allowed?] at h
  split at h
  · exact nomatch h
  · split at h
    · exact Option.some.inj h ▸ List.Pairwise.nil
    · obtain ⟨text, _, rfl⟩ := Option.map_eq_some_iff.mp h
      exact Keyed.ordered_ofList _

end Push
end FleetMesh
