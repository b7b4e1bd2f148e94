/-
Calls that fail.

A call that is answered with an error leaves the whole server as it was: the tree,
the event queue, both lists, the sessions and the file (`Run.failure_traceless`).
There are two exceptions.  An update that finds its session too old closes it, and
a registration that is to be accepted at once, with a file that cannot be written,
leaves the new machine waiting and announced.
-/
import FleetMesh.Proofs.Push.Standing

namespace FleetMesh

theorem Node.merge_refused {n incoming : Node} {now : Int} {why : Refusal}
    (h : (n.merge incoming now).2 = .refused why) : n.merge incoming now = (n, .refused why) := by
  rw [merge] at h ⊢
  by_cases hid : incoming.uuid = ""
  · rw [if_pos hid] at h ⊢
    exact congrArg (Prod.mk n) h
  · rw [if_neg hid] at h ⊢
    by_cases hown : incoming.uuid = n.uuid
    · rw [if_pos hown] at h ⊢
      exact congrArg (Prod.mk n) h
    · rw [if_neg hown] at h
      cases h

namespace Push

/-- An update found its session too old: the session is closed. -/
structure Expired (s : Server) (what : Delivery) (now : Int) (t : Server) : Prop where
  old : ∃ e, s.session? what.uuid what.token = some e ∧
    sessionLifetime < Clock.sub now (s.lastSeen what.uuid e)
  sessions : ∀ token, Keyed.find? token t.authority.roster.sessions =
    if what.token = token then none else Keyed.find? token s.authority.roster.sessions
  /-- Nothing but the sessions differs. -/
  frame : t = { s with authority := { s.authority with
    roster := { s.authority.roster with sessions := t.authority.roster.sessions } } }

/-- A machine that nobody knew was to be accepted at once, and the file could not be
written: it waits, and that is announced. -/
structure LeftWaiting (s : Server) (who : Greeting) (t : Server) : Prop where
  automatic : s.autoAccept = true
  unwritable : s.authority.ledger.writable = false
  stranger : s.authority.isAllowed who.uuid = false ∧ s.authority.isWaiting who.uuid = false
  waiting : ∀ uuid, Keyed.find? uuid t.authority.roster.waiting =
    if who.uuid = uuid then some who.hostname else Keyed.find? uuid s.authority.roster.waiting
  announced : t.mesh = if s.attached then
    s.mesh.notify (Server.announcement who.uuid who.hostname) else s.mesh
  /-- Nothing but the waiting list and the event queue differs. -/
  frame : t = { s with
    authority := { s.authority with
      roster := { s.authority.roster with waiting := t.authority.roster.waiting } }
    mesh := t.mesh }

namespace Server

variable {s : Server} {who : Greeting} {f : Failure}

/-- The server once a machine that nobody knew waits. -/
def queued (s : Server) (who : Greeting) : Server :=
  { s with
    authority := { s.authority with
      roster := { s.authority.roster with
        waiting := Keyed.insert who.uuid who.hostname s.authority.roster.waiting } }
    mesh := if s.attached then s.mesh.notify (announcement who.uuid who.hostname) else s.mesh }

theorem enroll_stranger (hallowed : s.authority.isAllowed who.uuid = false)
    (hwaits : s.authority.isWaiting who.uuid = false)
    (hroom : s.authority.roster.waiting.length < s.authority.limit) :
    s.enroll who.uuid who.hostname = (s.queued who, .ok ()) := by
  rw [enroll, Authority.enroll, hallowed, hwaits, Bool.or_false, if_neg Bool.false_ne_true,
    if_neg (Nat.not_le.mpr hroom)]
  rfl

theorem leftWaiting_queued (hauto : s.autoAccept = true)
    (hdisk : s.authority.ledger.writable = false)
    (hstranger : s.authority.isAllowed who.uuid = false ∧ s.authority.isWaiting who.uuid = false) :
    LeftWaiting s who (s.queued who) where
  automatic := hauto
  unwritable := hdisk
  stranger := hstranger
  waiting := fun uuid => Keyed.find?_insert who.uuid uuid who.hostname _
  announced := rfl
  frame := rfl

/-- How a registration goes on once the machine waits: it may be allowed at once. -/
theorem accept_error {t : Server} (hwaits : t.authority.isWaiting who.uuid = true)
    (h : (t.accept who).2 = .error f) :
    t.accept who = (t, .error f) ∧ f = internal (.io "writing the allowed clients") ∧
      t.autoAccept = true ∧ t.authority.ledger.writable = false := by
  rw [accept] at h ⊢
  cases hauto : t.autoAccept with
  | false =>
    rw [hauto, if_neg Bool.false_ne_true] at h
    cases h
  | true =>
    rw [hauto, if_pos rfl] at h
    rw [if_pos rfl]
    cases hdisk : t.authority.ledger.writable with
    | true =>
      obtain ⟨u, hallow, _⟩ := allow_written hwaits hdisk
      rw [hallow] at h
      cases h
    | false =>
      rw [allow_unwritten hwaits hdisk] at h ⊢
      obtain rfl := Except.error.inj h
      exact ⟨rfl, rfl, rfl, rfl⟩

theorem register_eq_accept {t : Server} (hallowed : s.authority.isAllowed who.uuid = false)
    (henroll : s.enroll who.uuid who.hostname = (t, .ok ())) : s.register who = t.accept who := by
  rw [register, hallowed, if_neg Bool.false_ne_true, henroll]
  rfl

theorem register_error (h : (s.register who).2 = .error f) :
    (s.register who).1 = s ∨
      f = internal (.io "writing the allowed clients") ∧ LeftWaiting s who (s.register who).1 := by
  cases hallowed : s.authority.isAllowed who.uuid with
  | true =>
    rw [register_known hallowed] at h
    cases h
  | false =>
    cases hwaits : s.authority.isWaiting who.uuid with
    | true =>
      have hregister := register_eq_accept hallowed (enroll_known hwaits who.hostname)
      rw [hregister] at h ⊢
      exact Or.inl (congrArg Prod.fst (accept_error hwaits h).1)
    | false =>
      by_cases hroom : s.authority.roster.waiting.length < s.authority.limit
      · have hregister := register_eq_accept hallowed (enroll_stranger hallowed hwaits hroom)
        have hnow : (s.queued who).authority.isWaiting who.uuid = true :=
          (Keyed.contains_insert who.uuid who.uuid who.hostname _).mpr (Or.inl rfl)
        rw [hregister] at h ⊢
        obtain ⟨haccept, hf, hauto, hdisk⟩ := accept_error hnow h
        rw [haccept]
        exact Or.inr ⟨hf, leftWaiting_queued hauto hdisk ⟨hallowed, hwaits⟩⟩
      · have hfull := enroll_full hallowed hwaits (Nat.not_lt.mp hroom) who.hostname
        refine Or.inl ?_
        rw [register, hallowed, if_neg Bool.false_ne_true, hfull]

theorem hello_error {clock : Int} (h : (s.hello who clock).2 = .error f) :
    (s.hello who clock).1 = s := by
  rcases hello_cases s who clock with he | ⟨_, _, he⟩
  · rw [he]
  · rw [he] at h
    cases h

theorem goodbye_error {who : Credentials} (h : (s.goodbye who).2 = .error f) :
    (s.goodbye who).1 = s := by
  rcases goodbye_cases s who with he | ⟨_, _, he⟩
  · rw [he]
  · rw [he] at h
    cases h

theorem deposit_error {node : Node} {clock : Int} (h : (s.deposit node clock).2 = .error f) :
    (s.deposit node clock).1 = s := by
  cases hmerged : (s.mesh.root.merge node clock).2 with
  | stored events gone =>
    rw [deposit, Mesh.merge, hmerged] at h
    cases h
  | refused why =>
    have hidle : s.mesh.run (.merge node clock) = s.mesh := by
      refine Mesh.run_of_idle ?_
      rw [Change.apply, Node.merge_refused hmerged]
      rfl
    rw [deposit, Mesh.merge, hidle]

theorem expired_closed (hs : Held s) {what : Delivery} {now : Int} {e : Session}
    (he : s.session? what.uuid what.token = some e)
    (hold : sessionLifetime < Clock.sub now (s.lastSeen what.uuid e)) :
    Expired s what now { s with authority := (s.authority.closeSession what.token).1 } where
  old := ⟨e, he, hold⟩
  sessions := fun token => Keyed.find?_erase hs.ordered what.token token
  frame := rfl

theorem update_error (hs : Held s) {what : Delivery} {clock now : Int}
    (h : (s.update what clock now).2 = .error f) :
    (s.update what clock now).1 = s ∨
      f = .notAllowed ∧ Expired s what now (s.update what clock now).1 := by
  rcases update_cases s what clock now with ⟨_, hu⟩ | ⟨e, he, ⟨hold, hu⟩ | ⟨_, hu⟩⟩
  · rw [hu]
    exact Or.inl rfl
  · rw [hu] at h ⊢
    exact Or.inr ⟨(Except.error.inj h).symm, expired_closed hs he hold⟩
  · refine Or.inl ?_
    rw [hu] at h ⊢
    rcases deliver_cases s what clock with ⟨g, hd⟩ | ⟨node, _, _, hd⟩
    · rw [hd]
    · rw [hd] at h ⊢
      exact deposit_error h

end Server

variable {s : Server} {past : List Moment}

/-- What fails leaves no trace, with two exceptions. -/
theorem Run.failure_traceless (h : Run past s) {c : Call} {clock now : Int} {f : Failure}
    (hfail : (s.handleAt c clock now).2 = .error f) :
    (s.handleAt c clock now).1 = s ∨
      (∃ what, c = .update what ∧ f = .notAllowed ∧
        Expired s what now (s.handleAt c clock now).1) ∨
      (∃ who, c = .register who ∧ f = Server.internal (.io "writing the allowed clients") ∧
        LeftWaiting s who (s.handleAt c clock now).1) := by
  rw [Server.handleAt] at hfail ⊢
  cases hvalid : c.validate with
  | error g => exact Or.inl rfl
  | ok _ =>
    rw [hvalid] at hfail
    change (s.perform c clock now).2 = .error f at hfail
    cases c with
    | getCertificate => cases hfail
    | register who =>
      rcases Server.register_error hfail with he | ⟨hf, he⟩
      · exact Or.inl he
      · exact Or.inr (Or.inr ⟨who, rfl, hf, he⟩)
    | getSignature who => exact Or.inl rfl
    | hello who => exact Or.inl (Server.hello_error hfail)
    | update what =>
      rcases Server.update_error h.held hfail with he | ⟨hf, he⟩
      · exact Or.inl he
      · exact Or.inr (Or.inl ⟨what, rfl, hf, he⟩)
    | goodbye who => exact Or.inl (Server.goodbye_error hfail)

/-- A server that accepts everybody at once, when its disk has failed. -/
def eagerDisk : List Moment × Server :=
  continued [] { emptyServer with autoAccept := true }
    [.disk { Ledger.ofContents none with writable := false }]

theorem eagerDisk_run : Run eagerDisk.1 eagerDisk.2 := by
  have hstart : Authority.start emptyServer.authority.signer "" 8 growingMint 0 (.ofContents none)
      = .ok emptyServer.authority := rfl
  exact (Run.start hstart _ true _).continued _

/-- The machine that registers there is the one exception that a registration makes. -/
theorem eagerDisk_failure :
    Run eagerDisk.1 eagerDisk.2 ∧
      (eagerDisk.2.handleAt (.register ⟨"host", "u", []⟩) 1000 1000).2 =
        .error (Server.internal (.io "writing the allowed clients")) ∧
      (eagerDisk.2.handleAt (.register ⟨"host", "u", []⟩) 1000 1000).1.authority.roster =
        ⟨[("u", "host")], [], []⟩ ∧
      ((eagerDisk.2.handleAt (.register ⟨"host", "u", []⟩) 1000 1000).1 = eagerDisk.2 ∨
        (∃ what, Call.register ⟨"host", "u", []⟩ = .update what ∧
          Server.internal (.io "writing the allowed clients") = .notAllowed ∧
          Expired eagerDisk.2 what 1000
            (eagerDisk.2.handleAt (.register ⟨"host", "u", []⟩) 1000 1000).1) ∨
        ∃ who, Call.register ⟨"host", "u", []⟩ = .register who ∧
          Server.internal (.io "writing the allowed clients") =
            Server.internal (.io "writing the allowed clients") ∧
          LeftWaiting eagerDisk.2 who
            (eagerDisk.2.handleAt (.register ⟨"host", "u", []⟩) 1000 1000).1) := by
  have hfail : (eagerDisk.2.handleAt (.register ⟨"host", "u", []⟩) 1000 1000).2 =
      .error (Server.internal (.io "writing the allowed clients")) := rfl
  exact ⟨eagerDisk_run, hfail, by decide, eagerDisk_run.failure_traceless hfail⟩

end Push
end FleetMesh
