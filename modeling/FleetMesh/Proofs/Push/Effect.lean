/-
What one step of a run does to the sessions.

Most steps leave every session as it is (`Spares`).  The others open one, close
one, or drop those of one machine, and `Effect` lists them with what is known of
the step.  What holds along a run is shown for each kind of effect, and does not
look at the calls again.
-/
import FleetMesh.Proofs.Push.Calls
import FleetMesh.Proofs.Push.Run

namespace FleetMesh
namespace Push

/-! ## The authority -/

/-- The one authority comes from the other without loss: the sessions are the same,
and nobody that was allowed is not any more. -/
structure Spares (a b : Authority) : Prop where
  sessions : b.roster.sessions = a.roster.sessions
  mint : b.mint = a.mint
  minted : b.minted = a.minted
  listed : Keyed.Ordered a.roster.allowed → Keyed.Ordered b.roster.allowed
  allowed : ∀ uuid, a.isAllowed uuid = true → b.isAllowed uuid = true

theorem Spares.refl (a : Authority) : Spares a a := ⟨rfl, rfl, rfl, id, fun _ => id⟩

theorem Spares.trans {a b c : Authority} (h : Spares a b) (h' : Spares b c) : Spares a c where
  sessions := h'.sessions.trans h.sessions
  mint := h'.mint.trans h.mint
  minted := h'.minted.trans h.minted
  listed := fun ho => h'.listed (h.listed ho)
  allowed := fun uuid ha => h'.allowed uuid (h.allowed uuid ha)

namespace Authority

variable {a : Authority}

theorem enroll_spares (a : Authority) (uuid hostname : String) :
    Spares a (a.enroll uuid hostname).1 := by
  rw [enroll]
  split
  · exact .refl a
  · split
    · exact .refl a
    · exact ⟨rfl, rfl, rfl, id, fun _ => id⟩

theorem adopt_eq_some {allowed : List (String × String)} {b : Authority}
    (h : a.adopt allowed = some b) :
    ∃ ledger, a.ledger.write (AllowedList.render allowed) = some ledger ∧
      b = { a with ledger := ledger, roster := { a.roster with allowed := allowed } } := by
  obtain ⟨ledger, hwritten, h⟩ := Option.map_eq_some_iff.mp h
  exact ⟨ledger, hwritten, h.symm⟩

theorem allow_spares (a : Authority) (uuid : String) : Spares a (a.allow uuid).1 := by
  rw [allow]
  split
  · exact .refl a
  · rename_i hostname _
    split
    · exact .refl a
    · rename_i b hb
      obtain ⟨ledger, _, rfl⟩ := adopt_eq_some hb
      refine ⟨rfl, rfl, rfl, fun ho => Keyed.ordered_insert ho uuid hostname, fun other h => ?_⟩
      exact (Keyed.contains_insert uuid other hostname a.roster.allowed).mpr (Or.inr h)

/-- What is left when a machine is forgotten. -/
structure Dismissed (a b : Authority) (uuid : String) : Prop where
  sessions : b.roster.sessions = (a.roster.dropSessions uuid).sessions
  mint : b.mint = a.mint
  minted : b.minted = a.minted
  listed : Keyed.Ordered a.roster.allowed → Keyed.Ordered b.roster.allowed
  allowed : Keyed.Ordered a.roster.allowed →
    ∀ other, other ≠ uuid → a.isAllowed other = true → b.isAllowed other = true

/-- Forgetting a machine ends its sessions, whether or not the list can be written. -/
theorem dismiss_cases (a : Authority) (uuid : String) :
    (a.dismiss uuid = (a, none) ∧ a.isAllowed uuid = false) ∨
      Dismissed a (a.dismiss uuid).1 uuid := by
  rw [dismiss]
  split
  · rename_i h
    obtain ⟨_, hallowed⟩ := Bool.and_eq_true_iff.mp h
    exact Or.inl ⟨rfl, (Bool.not_eq_true' _).mp hallowed⟩
  · refine Or.inr ?_
    split
    · exact ⟨rfl, rfl, rfl, id, fun _ _ _ => id⟩
    · dsimp only
      split
      · rename_i b hb
        obtain ⟨ledger, _, rfl⟩ := adopt_eq_some hb
        refine ⟨rfl, rfl, rfl, fun ho => Keyed.ordered_erase ho uuid, fun ho other hne h => ?_⟩
        show Keyed.contains other (Keyed.erase uuid a.roster.allowed) = true
        rw [Keyed.contains, Keyed.find?_erase ho, if_neg hne.symm]
        exact h
      · exact ⟨rfl, rfl, rfl, id, fun _ _ _ => id⟩

end Authority

/-! ## The server -/

/-- Nothing in the step asks for a change of the sessions. -/
structure Quiet (s : Server) (input : Input) (answer : Answer) : Prop where
  hello : ∀ {who clock now token}, input = .call (.hello who) clock now →
    answer ≠ some (.ok (.token token))
  goodbye : ∀ {who clock now}, input = .call (.goodbye who) clock now → answer ≠ some (.ok .ack)
  update : ∀ {what clock now e}, input = .call (.update what) clock now →
    (Call.update what).validate = .ok () → s.session? what.uuid what.token = some e →
      Clock.sub now (s.lastSeen what.uuid e) ≤ sessionLifetime
  revoke : ∀ {uuid}, input = .revoke uuid → s.authority.isAllowed uuid = false

/-- What a step does to the sessions, with what is known of the step. -/
inductive Effect (s : Server) : Input → Answer → Server → Prop
  | spared {input : Input} {answer : Answer} {t : Server} (h : Spares s.authority t.authority)
    (quiet : Quiet s input answer) : Effect s input answer t
  | opened {who : Greeting} {clock now : Int} (allowed : s.authority.isAllowed who.uuid = true)
    (verified : s.authority.signer.verify who.uuid who.signature = true) :
    Effect s (.call (.hello who) clock now)
      (some (.ok (.token (s.authority.openSession who.uuid clock).2)))
      { s with authority := (s.authority.openSession who.uuid clock).1 }
  | closed {who : Credentials} {clock now : Int} {e : Session}
    (session : s.session? who.uuid who.token = some e) :
    Effect s (.call (.goodbye who) clock now) (some (.ok .ack))
      { s with authority := (s.authority.closeSession who.token).1 }
  | expired {what : Delivery} {clock now : Int} {e : Session}
    (valid : (Call.update what).validate = .ok ())
    (session : s.session? what.uuid what.token = some e)
    (old : sessionLifetime < Clock.sub now (s.lastSeen what.uuid e)) :
    Effect s (.call (.update what) clock now) (some (.error .notAllowed))
      { s with authority := (s.authority.closeSession what.token).1 }
  | dismissed {uuid : String} {t : Server}
    (h : Authority.Dismissed s.authority t.authority uuid) : Effect s (.revoke uuid) none t

namespace Server

variable {s : Server}

/-! ### Calls -/

theorem enroll_spares (s : Server) (uuid hostname : String) :
    Spares s.authority (s.enroll uuid hostname).1.authority := by
  rw [enroll_authority]
  exact Authority.enroll_spares s.authority uuid hostname

theorem allow_spares (s : Server) (uuid : String) :
    Spares s.authority (s.allow uuid).1.authority :=
  Authority.allow_spares s.authority uuid

theorem register_spares (s : Server) (who : Greeting) :
    Spares s.authority (s.register who).1.authority := by
  have henroll := enroll_spares s who.uuid who.hostname
  rcases register_cases s who with he | he | he
  · rw [he]
    exact .refl _
  · rw [he]
    exact henroll
  · rw [he]
    exact henroll.trans (allow_spares _ who.uuid)

theorem hello_effect (s : Server) (who : Greeting) (clock now : Int) :
    Effect s (.call (.hello who) clock now) (some (s.hello who clock).2) (s.hello who clock).1 := by
  have hrefused : Quiet s (.call (.hello who) clock now) (some (.error .notAllowed)) :=
    ⟨nofun, nofun, nofun, nofun⟩
  rcases hello_cases s who clock with he | ⟨hallowed, hverified, he⟩
  · rw [he]
    exact .spared (.refl _) hrefused
  · rw [he]
    exact .opened hallowed hverified

theorem goodbye_effect (s : Server) (who : Credentials) (clock now : Int) :
    Effect s (.call (.goodbye who) clock now) (some (s.goodbye who).2) (s.goodbye who).1 := by
  have hrefused : Quiet s (.call (.goodbye who) clock now) (some (.error .notAllowed)) :=
    ⟨nofun, nofun, nofun, nofun⟩
  rcases goodbye_cases s who with he | ⟨e, hsession, he⟩
  · rw [he]
    exact .spared (.refl _) hrefused
  · rw [he]
    exact .closed hsession

/-- An update is quiet if it finds no session, or a good one. -/
theorem quiet_update {what : Delivery} {clock now : Int} {answer : Answer}
    (h : ∀ e, s.session? what.uuid what.token = some e →
      Clock.sub now (s.lastSeen what.uuid e) ≤ sessionLifetime) :
    Quiet s (.call (.update what) clock now) answer where
  hello := nofun
  goodbye := nofun
  update := by
    intro _ _ _ e hinput _ he
    obtain ⟨hc, rfl, rfl⟩ := Input.call.inj hinput
    obtain rfl := Call.update.inj hc
    exact h e he
  revoke := nofun

theorem update_effect (s : Server) {what : Delivery} (clock now : Int)
    (valid : (Call.update what).validate = .ok ()) :
    Effect s (.call (.update what) clock now) (some (s.update what clock now).2)
      (s.update what clock now).1 := by
  rcases update_cases s what clock now with ⟨hnone, hu⟩ | ⟨e, he, ⟨hold, hu⟩ | ⟨hfresh, hu⟩⟩
  · rw [hu]
    refine .spared (.refl _) (quiet_update fun d hd => ?_)
    rw [hnone] at hd
    cases hd
  · rw [hu]
    exact .expired valid he hold
  · rw [hu]
    refine .spared ?_ (quiet_update fun d hd => ?_)
    · rw [deliver_authority]
      exact .refl _
    · obtain rfl := Option.some.inj (he.symm.trans hd)
      exact hfresh

theorem handleAt_effect (s : Server) (c : Call) (clock now : Int) :
    Effect s (.call c clock now) (some (s.handleAt c clock now).2) (s.handleAt c clock now).1 := by
  cases valid : c.validate with
  | error f =>
    rw [handleAt_of_invalid valid]
    refine .spared (.refl _) ⟨nofun, nofun, ?_, nofun⟩
    intro what _ _ _ h hvalid _
    obtain ⟨rfl, _⟩ := Input.call.inj h
    rw [valid] at hvalid
    cases hvalid
  | ok u =>
    rw [handleAt_of_valid valid]
    cases c with
    | getCertificate => exact .spared (.refl _) ⟨nofun, nofun, nofun, nofun⟩
    | register who => exact .spared (register_spares s who) ⟨nofun, nofun, nofun, nofun⟩
    | getSignature who => exact .spared (.refl _) ⟨nofun, nofun, nofun, nofun⟩
    | hello who => exact hello_effect s who clock now
    | update what => exact update_effect s clock now valid
    | goodbye who => exact goodbye_effect s who clock now

/-! ### All steps -/

theorem step_effect (s : Server) (input : Input) : Effect s input (s.step input).2 (s.step input).1 := by
  cases input with
  | call c clock now => exact handleAt_effect s c clock now
  | allow uuid => exact .spared (allow_spares s uuid) ⟨nofun, nofun, nofun, nofun⟩
  | change c => exact .spared (.refl _) ⟨nofun, nofun, nofun, nofun⟩
  | disk ledger => exact .spared ⟨rfl, rfl, rfl, id, fun _ => id⟩ ⟨nofun, nofun, nofun, nofun⟩
  | revoke uuid =>
    have hauthority := revoke_authority s uuid
    rcases Authority.dismiss_cases s.authority uuid with ⟨he, hnot⟩ | h
    · refine .spared ?_ ⟨nofun, nofun, nofun, ?_⟩
      · show Spares s.authority (s.revoke uuid).1.authority
        rw [hauthority, he]
        exact .refl _
      · intro other h
        obtain rfl := Input.revoke.inj h
        exact hnot
    · exact .dismissed (hauthority ▸ h)

end Server

end Push
end FleetMesh
