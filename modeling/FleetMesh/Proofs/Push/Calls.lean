/-
What each call does.

A call has few outcomes, each with the server that it leaves and the answer that it
gives, and what is proved of calls is proved of these outcomes.
-/
import FleetMesh.Proofs.Push.Roster
import FleetMesh.Push.Server

namespace FleetMesh
namespace Push

namespace Authority

theorem session_eq_ok {a : Authority} {uuid token : String} {e : Session} :
    a.session uuid token = .ok e ↔ a.roster.session? uuid token = some e := by
  rw [session]
  cases a.roster.session? uuid token with
  | none => exact ⟨fun h => (nomatch h), fun h => (nomatch h)⟩
  | some s => exact ⟨fun h => congrArg some (Except.ok.inj h), fun h => by rw [Option.some.inj h]⟩

end Authority

namespace Server

/-- The session of a token, if it is this machine's. -/
def session? (s : Server) (uuid token : String) : Option Session :=
  s.authority.roster.session? uuid token

variable {s : Server} {who : Greeting} {e : Session}

/-! ## The check of a call -/

theorem handleAt_of_valid {c : Call} (h : c.validate = .ok ()) (clock now : Int) :
    s.handleAt c clock now = s.perform c clock now := by
  rw [handleAt, h]

theorem handleAt_of_invalid {c : Call} {f : Failure} (h : c.validate = .error f)
    (clock now : Int) : s.handleAt c clock now = (s, .error f) := by
  rw [handleAt, h]

/-- Only what is in order is answered. -/
theorem valid_of_answer {c : Call} {clock now : Int} {reply : Reply}
    (h : (s.handleAt c clock now).2 = .ok reply) : c.validate = .ok () := by
  cases hc : c.validate with
  | ok u => rfl
  | error f =>
    rw [handleAt_of_invalid hc] at h
    cases h

/-! ## Registering -/

theorem enroll_authority (s : Server) (uuid hostname : String) :
    (s.enroll uuid hostname).1.authority = (s.authority.enroll uuid hostname).1 := by
  rw [enroll]
  split <;> rename_i he <;> rw [he]

theorem enroll_root (s : Server) (uuid hostname : String) :
    (s.enroll uuid hostname).1.mesh.root = s.mesh.root := by
  rw [enroll]
  split
  · rfl
  · dsimp only
    split <;> rfl

/-- The rest of a registration, once the machine waits. -/
def accept (s : Server) (who : Greeting) : Server × Except Failure Reply :=
  if s.autoAccept then
    match s.allow who.uuid with
    | (s, .ok ()) => (s, .ok .ack)
    | (s, .error e) => (s, .error (internal e))
  else (s, .ok .ack)

/-- A registration leaves the server as it is, or puts the machine on the waiting
list, or goes on to allow it. -/
theorem register_cases (s : Server) (who : Greeting) :
    (s.register who).1 = s ∨
      (s.register who).1 = (s.enroll who.uuid who.hostname).1 ∨
      (s.register who).1 = ((s.enroll who.uuid who.hostname).1.allow who.uuid).1 := by
  rw [register]
  split
  · exact Or.inl rfl
  · refine Or.inr ?_
    rcases s.enroll who.uuid who.hostname with ⟨t, e | ⟨⟩⟩
    · cases e <;> exact Or.inl rfl
    · dsimp only
      split
      · rcases t.allow who.uuid with ⟨u, e | ⟨⟩⟩ <;> exact Or.inr rfl
      · exact Or.inl rfl

/-! ## Sessions -/

theorem hello_refused (h : ¬ (s.authority.isAllowed who.uuid = true ∧
    s.authority.signer.verify who.uuid who.signature = true)) (clock : Int) :
    s.hello who clock = (s, .error .notAllowed) := by
  rw [hello, Authority.verify]
  cases hallowed : s.authority.isAllowed who.uuid with
  | false => rfl
  | true =>
    have hbad : s.authority.signer.verify who.uuid who.signature = false := by
      rw [Bool.eq_false_iff]
      exact fun hgood => h ⟨hallowed, hgood⟩
    rw [hbad]
    rfl

theorem hello_opens (h : s.authority.isAllowed who.uuid = true)
    (hverified : s.authority.signer.verify who.uuid who.signature = true) (clock : Int) :
    s.hello who clock = ({ s with authority := (s.authority.openSession who.uuid clock).1 },
      .ok (.token (s.authority.openSession who.uuid clock).2)) := by
  rw [hello, Authority.verify, h, hverified]
  rfl

theorem hello_cases (s : Server) (who : Greeting) (clock : Int) :
    s.hello who clock = (s, .error .notAllowed) ∨
      s.authority.isAllowed who.uuid = true ∧
      s.authority.signer.verify who.uuid who.signature = true ∧
      s.hello who clock = ({ s with authority := (s.authority.openSession who.uuid clock).1 },
        .ok (.token (s.authority.openSession who.uuid clock).2)) := by
  by_cases h : s.authority.isAllowed who.uuid = true ∧
      s.authority.signer.verify who.uuid who.signature = true
  · exact Or.inr ⟨h.1, h.2, hello_opens h.1 h.2 clock⟩
  · exact Or.inl (hello_refused h clock)

theorem goodbye_unknown {who : Credentials} (h : s.session? who.uuid who.token = none) :
    s.goodbye who = (s, .error .notAllowed) := by
  rw [goodbye, Authority.session, show s.authority.roster.session? who.uuid who.token = none from h]

theorem goodbye_closes {who : Credentials} (h : s.session? who.uuid who.token = some e) :
    s.goodbye who = ({ s with authority := (s.authority.closeSession who.token).1 }, .ok .ack) := by
  rw [goodbye, Authority.session_eq_ok.mpr h]

theorem goodbye_cases (s : Server) (who : Credentials) :
    s.goodbye who = (s, .error .notAllowed) ∨
      ∃ e, s.session? who.uuid who.token = some e ∧
        s.goodbye who =
          ({ s with authority := (s.authority.closeSession who.token).1 }, .ok .ack) := by
  cases h : s.session? who.uuid who.token with
  | none => exact Or.inl (goodbye_unknown h)
  | some e => exact Or.inr ⟨e, rfl, goodbye_closes h⟩

/-! ## Updates -/

/-- How the check of a session ends: there is none, it is too old, or it is good. -/
theorem authenticate_cases (s : Server) (uuid token : String) (now : Int) :
    (s.session? uuid token = none ∧ s.authenticate uuid token now = (s, .error .notAllowed)) ∨
    ∃ e, s.session? uuid token = some e ∧
      (sessionLifetime < Clock.sub now (s.lastSeen uuid e) ∧ s.authenticate uuid token now =
          ({ s with authority := (s.authority.closeSession token).1 }, .error .notAllowed) ∨
        Clock.sub now (s.lastSeen uuid e) ≤ sessionLifetime ∧
          s.authenticate uuid token now = (s, .ok ())) := by
  rw [authenticate]
  cases hs : s.session? uuid token with
  | none =>
    have herror : s.authority.session uuid token = .error .badToken := by
      rw [Authority.session, show s.authority.roster.session? uuid token = none from hs]
    rw [herror]
    exact Or.inl ⟨rfl, rfl⟩
  | some e =>
    rw [Authority.session_eq_ok.mpr hs]
    refine Or.inr ⟨e, rfl, ?_⟩
    by_cases hold : sessionLifetime < Clock.sub now (s.lastSeen uuid e)
    · exact Or.inl ⟨hold, if_pos hold⟩
    · exact Or.inr ⟨Int.not_lt.mp hold, if_neg hold⟩

/-- The rest of an update, once its session is found good. -/
def deliver (s : Server) (what : Delivery) (clock : Int) : Server × Except Failure Reply :=
  match Node.ofText clock what.node 0 with
  | .error e => (s, .error (.undecodable (s.wording.describe what.node e)))
  | .ok node =>
    if node.uuid ≠ what.uuid then
      (s, .error (.invalid "snapshot uuid does not match the session"))
    else s.deposit node clock

theorem update_eq (s : Server) (what : Delivery) (clock now : Int) :
    s.update what clock now = match s.authenticate what.uuid what.token now with
      | (s, .error f) => (s, .error f)
      | (s, .ok ()) => s.deliver what clock := rfl

/-- What is delivered is refused, or it is the machine's own snapshot, and merged. -/
theorem deliver_cases (s : Server) (what : Delivery) (clock : Int) :
    (∃ f, s.deliver what clock = (s, .error f)) ∨
      ∃ node, Node.ofText clock what.node 0 = .ok node ∧ node.uuid = what.uuid ∧
        s.deliver what clock = s.deposit node clock := by
  rw [deliver]
  split
  · exact Or.inl ⟨_, rfl⟩
  · rename_i node hnode
    split
    · exact Or.inl ⟨_, rfl⟩
    · rename_i hid
      exact Or.inr ⟨node, hnode, Decidable.not_not.mp hid, rfl⟩

theorem update_cases (s : Server) (what : Delivery) (clock now : Int) :
    (s.session? what.uuid what.token = none ∧
        s.update what clock now = (s, .error .notAllowed)) ∨
    ∃ e, s.session? what.uuid what.token = some e ∧
      (sessionLifetime < Clock.sub now (s.lastSeen what.uuid e) ∧ s.update what clock now =
          ({ s with authority := (s.authority.closeSession what.token).1 }, .error .notAllowed) ∨
        Clock.sub now (s.lastSeen what.uuid e) ≤ sessionLifetime ∧
          s.update what clock now = s.deliver what clock) := by
  rw [update_eq]
  rcases authenticate_cases s what.uuid what.token now with
    ⟨hnone, ha⟩ | ⟨e, he, ⟨hold, ha⟩ | ⟨hfresh, ha⟩⟩
  · exact Or.inl ⟨hnone, by rw [ha]⟩
  · exact Or.inr ⟨e, he, Or.inl ⟨hold, by rw [ha]⟩⟩
  · exact Or.inr ⟨e, he, Or.inr ⟨hfresh, by rw [ha]⟩⟩

theorem deliver_authority (s : Server) (what : Delivery) (clock : Int) :
    (s.deliver what clock).1.authority = s.authority := by
  rcases deliver_cases s what clock with ⟨f, hf⟩ | ⟨node, _, _, hn⟩
  · rw [hf]
  · rw [hn]
    rfl

/-- Outside the authority only the snapshot that is delivered counts. -/
theorem deliver_mesh (s : Server) (what : Delivery) (clock : Int) :
    (s.deliver what clock).1.mesh = s.mesh ∨
      ∃ node, node.uuid = what.uuid ∧
        (s.deliver what clock).1.mesh = s.mesh.run (.merge node clock) := by
  rcases deliver_cases s what clock with ⟨f, hf⟩ | ⟨node, _, hid, hn⟩
  · rw [hf]
    exact Or.inl rfl
  · rw [hn]
    exact Or.inr ⟨node, hid, rfl⟩

/-! ## Decisions -/

theorem revoke_authority (s : Server) (uuid : String) :
    (s.revoke uuid).1.authority = (s.authority.dismiss uuid).1 := by
  rw [revoke]
  split
  · rename_i h
    rw [h]
  · rename_i h
    rw [h]

end Server
end Push
end FleetMesh
