/-
The standing of a machine, and the calls that change it.

A machine is unknown, waits, is allowed, or has a session.  `Protocol` says for
each call of a machine what it does to the machine's standing and how it is
answered, and every server that a run leads to keeps to it (`Run.protocol`).  It
gives a signature to whoever is allowed, provided that its key can make one:
an RSA key can if its modulus has 62 bytes (`Rsa.sign_isSome_iff`).
-/
import FleetMesh.Proofs.Push.Lists
import FleetMesh.Proofs.Rsa

namespace FleetMesh
namespace Push

/-- Where a machine stands with the server. -/
inductive Standing
  | unknown
  | waiting
  | allowed
  | session
  deriving DecidableEq, Repr

namespace Server

variable {s t : Server} {uuid token : String} {e : Session}

def hasSession (s : Server) (uuid : String) : Bool :=
  s.authority.roster.sessions.any (fun entry => entry.2.uuid == uuid)

def standing (s : Server) (uuid : String) : Standing :=
  if s.hasSession uuid then .session
  else if s.authority.isAllowed uuid then .allowed
  else if s.authority.isWaiting uuid then .waiting
  else .unknown

/-! ## What a standing says -/

theorem hasSession_iff (h : Keyed.Ordered s.authority.roster.sessions) :
    s.hasSession uuid = true ↔ ∃ token e, s.session? uuid token = some e := by
  rw [hasSession, List.any_eq_true]
  constructor
  · intro hany
    obtain ⟨entry, hmem, hid⟩ := hany
    exact ⟨entry.1, entry.2,
      session?_eq_some.mpr ⟨Keyed.find?_of_mem h hmem, eq_of_beq hid⟩⟩
  · intro hsome
    obtain ⟨token, e, he⟩ := hsome
    obtain ⟨hfind, hid⟩ := session?_eq_some.mp he
    exact ⟨(token, e), Keyed.mem_of_find? hfind, beq_iff_eq.mpr hid⟩

theorem standing_session_iff (h : Keyed.Ordered s.authority.roster.sessions) :
    s.standing uuid = .session ↔ ∃ token e, s.session? uuid token = some e := by
  rw [← hasSession_iff h, standing]
  cases s.hasSession uuid <;> cases s.authority.isAllowed uuid <;>
    cases s.authority.isWaiting uuid <;> simp

theorem standing_allowed_iff :
    s.standing uuid = .allowed ↔ s.hasSession uuid = false ∧ s.authority.isAllowed uuid = true := by
  rw [standing]
  cases s.hasSession uuid <;> cases s.authority.isAllowed uuid <;>
    cases s.authority.isWaiting uuid <;> simp

theorem standing_waiting_iff :
    s.standing uuid = .waiting ↔ s.hasSession uuid = false ∧ s.authority.isAllowed uuid = false ∧
      s.authority.isWaiting uuid = true := by
  rw [standing]
  cases s.hasSession uuid <;> cases s.authority.isAllowed uuid <;>
    cases s.authority.isWaiting uuid <;> simp

theorem standing_unknown_iff :
    s.standing uuid = .unknown ↔ s.hasSession uuid = false ∧ s.authority.isAllowed uuid = false ∧
      s.authority.isWaiting uuid = false := by
  rw [standing]
  cases s.hasSession uuid <;> cases s.authority.isAllowed uuid <;>
    cases s.authority.isWaiting uuid <;> simp

/-- A session is held by an allowed machine only, so these are the two standings of
allowed machines. -/
theorem admitted_iff (h : Held s) :
    s.authority.isAllowed uuid = true ↔ s.standing uuid = .allowed ∨ s.standing uuid = .session := by
  rw [standing_allowed_iff, standing_session_iff h.ordered, ← hasSession_iff h.ordered]
  have hsession : s.hasSession uuid = true → s.authority.isAllowed uuid = true := by
    intro hhas
    obtain ⟨token, e, he⟩ := (hasSession_iff h.ordered).mp hhas
    obtain ⟨hfind, rfl⟩ := session?_eq_some.mp he
    exact h.allowed token e hfind
  cases hhas : s.hasSession uuid with
  | false => simp
  | true => simp [hsession hhas]

/-! ## Registering -/

/-- The one server comes from the other when a machine is put on the waiting list,
or is on it already. -/
structure Queued (s t : Server) (uuid : String) : Prop where
  sessions : t.hasSession uuid = s.hasSession uuid
  allowed : t.authority.isAllowed uuid = s.authority.isAllowed uuid
  waiting : t.authority.isWaiting uuid = true
  ledger : t.authority.ledger = s.authority.ledger
  autoAccept : t.autoAccept = s.autoAccept

theorem Queued.standing_eq (h : Queued s t uuid) (hsession : s.hasSession uuid = false)
    (hallowed : s.authority.isAllowed uuid = false) : t.standing uuid = .waiting :=
  standing_waiting_iff.mpr ⟨h.sessions.trans hsession, h.allowed.trans hallowed, h.waiting⟩

theorem enroll_known (h : s.authority.isWaiting uuid = true) (hostname : String) :
    s.enroll uuid hostname = (s, .ok ()) := by
  have henroll : s.authority.enroll uuid hostname = (s.authority, .ok false) := by
    rw [Authority.enroll, h, Bool.or_true, if_pos rfl]
  rw [enroll, henroll]
  rfl

theorem enroll_full (hallowed : s.authority.isAllowed uuid = false)
    (hwaits : s.authority.isWaiting uuid = false)
    (hfull : s.authority.limit ≤ s.authority.roster.waiting.length) (hostname : String) :
    s.enroll uuid hostname = (s, .error (.full s.authority.limit)) := by
  have henroll : s.authority.enroll uuid hostname
      = (s.authority, .error (.full s.authority.limit)) := by
    rw [Authority.enroll, hallowed, hwaits, Bool.or_false, if_neg Bool.false_ne_true, if_pos hfull]
  rw [enroll, henroll]

theorem enroll_queued (hallowed : s.authority.isAllowed uuid = false)
    (hroom : s.authority.isWaiting uuid = true ∨
      s.authority.roster.waiting.length < s.authority.limit) (hostname : String) :
    ∃ t, s.enroll uuid hostname = (t, .ok ()) ∧ Queued s t uuid := by
  cases hwaits : s.authority.isWaiting uuid with
  | true => exact ⟨s, enroll_known hwaits hostname, rfl, rfl, hwaits, rfl, rfl⟩
  | false =>
    have hnotfull : ¬ s.authority.limit ≤ s.authority.roster.waiting.length := by
      rw [hwaits] at hroom
      simp at hroom
      omega
    rw [enroll, Authority.enroll, hallowed, hwaits, Bool.or_false, if_neg Bool.false_ne_true,
      if_neg hnotfull]
    refine ⟨_, rfl, rfl, rfl, ?_, rfl, rfl⟩
    exact (Keyed.contains_insert uuid uuid hostname _).mpr (Or.inl rfl)

theorem allow_written (hwaits : s.authority.isWaiting uuid = true)
    (hdisk : s.authority.ledger.writable = true) :
    ∃ t, s.allow uuid = (t, .ok ()) ∧ t.hasSession uuid = s.hasSession uuid ∧
      t.authority.isAllowed uuid = true := by
  obtain ⟨hostname, hfind⟩ := Keyed.contains_iff.mp hwaits
  rw [allow, Authority.allow, hfind]
  dsimp only
  rw [Authority.adopt, Ledger.write, if_pos hdisk]
  refine ⟨_, rfl, rfl, ?_⟩
  exact (Keyed.contains_insert uuid uuid hostname _).mpr (Or.inl rfl)

theorem allow_unwritten (hwaits : s.authority.isWaiting uuid = true)
    (hdisk : s.authority.ledger.writable = false) :
    s.allow uuid = (s, .error (.io "writing the allowed clients")) := by
  obtain ⟨hostname, hfind⟩ := Keyed.contains_iff.mp hwaits
  rw [allow, Authority.allow, hfind]
  dsimp only
  rw [Authority.adopt, Ledger.write, hdisk, if_neg Bool.false_ne_true]
  rfl

/-- Whether a machine that registers gets onto the waiting list, or stays there. -/
def MayQueue (s : Server) (uuid : String) : Prop :=
  s.standing uuid = .waiting ∨
    s.standing uuid = .unknown ∧ s.authority.roster.waiting.length < s.authority.limit

theorem queued_of_mayQueue (h : s.MayQueue uuid) (hostname : String) :
    s.authority.isAllowed uuid = false ∧
      ∃ t, s.enroll uuid hostname = (t, .ok ()) ∧ Queued s t uuid ∧ t.standing uuid = .waiting := by
  have hlists : s.hasSession uuid = false ∧ s.authority.isAllowed uuid = false ∧
      (s.authority.isWaiting uuid = true ∨
        s.authority.roster.waiting.length < s.authority.limit) := by
    rcases h with h | ⟨h, hroom⟩
    · obtain ⟨hsession, hallowed, hwaits⟩ := standing_waiting_iff.mp h
      exact ⟨hsession, hallowed, Or.inl hwaits⟩
    · obtain ⟨hsession, hallowed, _⟩ := standing_unknown_iff.mp h
      exact ⟨hsession, hallowed, Or.inr hroom⟩
  obtain ⟨hsession, hallowed, hroom⟩ := hlists
  obtain ⟨t, henroll, hqueued⟩ := enroll_queued hallowed hroom hostname
  exact ⟨hallowed, t, henroll, hqueued, hqueued.standing_eq hsession hallowed⟩

variable {who : Greeting}

theorem register_known (h : s.authority.isAllowed who.uuid = true) :
    s.register who = (s, .ok .ack) := if_pos h

theorem register_full (h : s.standing who.uuid = .unknown)
    (hfull : s.authority.limit ≤ s.authority.roster.waiting.length) :
    s.register who = (s, .error (.full s.authority.limit)) := by
  obtain ⟨_, hallowed, hwaits⟩ := standing_unknown_iff.mp h
  rw [register, hallowed, if_neg Bool.false_ne_true, enroll_full hallowed hwaits hfull]

theorem register_queued (h : s.MayQueue who.uuid) (hmanual : s.autoAccept = false) :
    (s.register who).2 = .ok .ack ∧ (s.register who).1.standing who.uuid = .waiting := by
  obtain ⟨hallowed, t, henroll, hqueued, hstanding⟩ := queued_of_mayQueue h who.hostname
  have hregister : s.register who = (t, .ok .ack) := by
    rw [register, hallowed, if_neg Bool.false_ne_true, henroll]
    dsimp only
    rw [hqueued.autoAccept, hmanual, if_neg Bool.false_ne_true]
  rw [hregister]
  exact ⟨rfl, hstanding⟩

theorem register_accepted (h : s.MayQueue who.uuid) (hauto : s.autoAccept = true)
    (hdisk : s.authority.ledger.writable = true) :
    (s.register who).2 = .ok .ack ∧ (s.register who).1.standing who.uuid = .allowed := by
  obtain ⟨hallowed, t, henroll, hqueued, hstanding⟩ := queued_of_mayQueue h who.hostname
  obtain ⟨hsession, _, _⟩ := standing_waiting_iff.mp hstanding
  obtain ⟨v, hallow, hsame, hnow⟩ :=
    allow_written hqueued.waiting ((congrArg Ledger.writable hqueued.ledger).trans hdisk)
  have hregister : s.register who = (v, .ok .ack) := by
    rw [register, hallowed, if_neg Bool.false_ne_true, henroll]
    dsimp only
    rw [hqueued.autoAccept, if_pos hauto, hallow]
  rw [hregister]
  exact ⟨rfl, standing_allowed_iff.mpr ⟨hsame.trans hsession, hnow⟩⟩

theorem register_unwritten (h : s.MayQueue who.uuid) (hauto : s.autoAccept = true)
    (hdisk : s.authority.ledger.writable = false) :
    (∃ why, (s.register who).2 = .error (.internal why)) ∧
      (s.register who).1.standing who.uuid = .waiting := by
  obtain ⟨hallowed, t, henroll, hqueued, hstanding⟩ := queued_of_mayQueue h who.hostname
  have hallow := allow_unwritten hqueued.waiting
    ((congrArg Ledger.writable hqueued.ledger).trans hdisk)
  have hregister : s.register who =
      (t, .error (internal (.io "writing the allowed clients"))) := by
    rw [register, hallowed, if_neg Bool.false_ne_true, henroll]
    dsimp only
    rw [hqueued.autoAccept, if_pos hauto, hallow]
  rw [hregister]
  exact ⟨⟨_, rfl⟩, hstanding⟩

/-! ## Signatures -/

theorem giveSignature_allowed (h : s.authority.isAllowed who.uuid = true) :
    s.giveSignature who =
      match s.authority.signer.sign who.uuid with
      | some bytes => .ok (.signature bytes)
      | none => .error (.internal AuthorityError.key.message) := by
  rw [giveSignature, Authority.signature, h, Bool.not_true, if_neg Bool.false_ne_true]
  cases s.authority.signer.sign who.uuid <;> rfl

theorem giveSignature_refused (h : s.authority.isAllowed who.uuid = false) :
    s.giveSignature who =
      .error (if s.authority.isWaiting who.uuid then .waiting else .notAllowed) := by
  rw [giveSignature, Authority.signature, h, Bool.not_false, if_pos rfl]

/-! ## Sessions -/

/-- Closing a machine's session leaves it allowed. -/
theorem standing_closed (h : Held s) (hsingle : s.Single) (he : s.session? uuid token = some e) :
    Server.standing { s with authority := (s.authority.closeSession token).1 } uuid = .allowed := by
  obtain ⟨hfind, hid⟩ := session?_eq_some.mp he
  refine standing_allowed_iff.mpr ⟨?_, hid ▸ h.allowed token e hfind⟩
  rw [Bool.eq_false_iff]
  intro hhas
  obtain ⟨other, d, hd⟩ := (hasSession_iff (held_close h token).ordered).mp hhas
  obtain ⟨hd, hother⟩ := (session?_closed h he).mp hd
  exact hother ⟨rfl, hsingle uuid token other e d he hd⟩

variable {what : Delivery} {now : Int}

theorem update_unknown (h : s.session? what.uuid what.token = none) (clock : Int) :
    s.update what clock now = (s, .error .notAllowed) := by
  rcases update_cases s what clock now with ⟨_, hu⟩ | ⟨e, he, _⟩
  · exact hu
  · rw [h] at he
    cases he

theorem update_expired (h : s.session? what.uuid what.token = some e)
    (hold : sessionLifetime < Clock.sub now (s.lastSeen what.uuid e)) (clock : Int) :
    s.update what clock now =
      ({ s with authority := (s.authority.closeSession what.token).1 }, .error .notAllowed) := by
  rcases update_cases s what clock now with ⟨hnone, _⟩ | ⟨d, hd, ⟨_, hu⟩ | ⟨hfresh, _⟩⟩
  · rw [h] at hnone
    cases hnone
  · exact hu
  · obtain rfl := Option.some.inj (h.symm.trans hd)
    exact absurd hold (Int.not_lt.mpr hfresh)

theorem update_keeps (h : s.session? what.uuid what.token = some e)
    (hfresh : Clock.sub now (s.lastSeen what.uuid e) ≤ sessionLifetime) (clock : Int) :
    (s.update what clock now).1.authority = s.authority := by
  rcases update_cases s what clock now with ⟨hnone, _⟩ | ⟨d, hd, ⟨hold, _⟩ | ⟨_, hu⟩⟩
  · rw [h] at hnone
    cases hnone
  · obtain rfl := Option.some.inj (h.symm.trans hd)
    exact absurd hold (Int.not_lt.mpr hfresh)
  · rw [hu, deliver_authority]

/-! ## The protocol -/

/-- What the calls of a machine do to its standing, and how they are answered.
Every call is one that passes its check. -/
structure Protocol (s : Server) : Prop where
  apart : ∀ uuid, s.authority.isWaiting uuid = true → s.authority.isAllowed uuid = false
  register_known : ∀ {who clock now}, (Call.register who).validate = .ok () →
    s.standing who.uuid = .allowed ∨ s.standing who.uuid = .session →
      s.handleAt (.register who) clock now = (s, .ok .ack)
  register_full : ∀ {who clock now}, (Call.register who).validate = .ok () →
    s.standing who.uuid = .unknown → s.authority.limit ≤ s.authority.roster.waiting.length →
      s.handleAt (.register who) clock now = (s, .error (.full s.authority.limit))
  register_queued : ∀ {who clock now}, (Call.register who).validate = .ok () →
    s.MayQueue who.uuid → s.autoAccept = false →
      (s.handleAt (.register who) clock now).2 = .ok .ack ∧
        (s.handleAt (.register who) clock now).1.standing who.uuid = .waiting
  register_accepted : ∀ {who clock now}, (Call.register who).validate = .ok () →
    s.MayQueue who.uuid → s.autoAccept = true → s.authority.ledger.writable = true →
      (s.handleAt (.register who) clock now).2 = .ok .ack ∧
        (s.handleAt (.register who) clock now).1.standing who.uuid = .allowed
  register_unwritten : ∀ {who clock now}, (Call.register who).validate = .ok () →
    s.MayQueue who.uuid → s.autoAccept = true → s.authority.ledger.writable = false →
      (∃ why, (s.handleAt (.register who) clock now).2 = .error (.internal why)) ∧
        (s.handleAt (.register who) clock now).1.standing who.uuid = .waiting
  /-- An allowed machine gets what the key makes, and learns if it makes nothing. -/
  signature_given : ∀ {who clock now}, (Call.getSignature who).validate = .ok () →
    s.standing who.uuid = .allowed ∨ s.standing who.uuid = .session →
      s.handleAt (.getSignature who) clock now =
        (s, match s.authority.signer.sign who.uuid with
          | some bytes => .ok (.signature bytes)
          | none => .error (.internal AuthorityError.key.message))
  signature_waiting : ∀ {who clock now}, (Call.getSignature who).validate = .ok () →
    s.standing who.uuid = .waiting →
      s.handleAt (.getSignature who) clock now = (s, .error .waiting)
  signature_unknown : ∀ {who clock now}, (Call.getSignature who).validate = .ok () →
    s.standing who.uuid = .unknown →
      s.handleAt (.getSignature who) clock now = (s, .error .notAllowed)
  /-- The new token is the machine's only one, and it was nobody's. -/
  hello_opens : ∀ {who clock now}, (Call.hello who).validate = .ok () →
    s.standing who.uuid = .allowed ∨ s.standing who.uuid = .session →
    s.authority.signer.verify who.uuid who.signature = true →
      ∃ token, (s.handleAt (.hello who) clock now).2 = .ok (.token token) ∧
        (s.handleAt (.hello who) clock now).1.standing who.uuid = .session ∧
        (∀ other, (∃ e, (s.handleAt (.hello who) clock now).1.session? who.uuid other = some e) ↔
          other = token) ∧
        ∀ uuid, s.session? uuid token = none
  hello_refused : ∀ {who clock now}, (Call.hello who).validate = .ok () →
    ¬ ((s.standing who.uuid = .allowed ∨ s.standing who.uuid = .session) ∧
        s.authority.signer.verify who.uuid who.signature = true) →
      s.handleAt (.hello who) clock now = (s, .error .notAllowed)
  update_kept : ∀ {what clock now e}, (Call.update what).validate = .ok () →
    s.session? what.uuid what.token = some e →
      Clock.sub now (s.lastSeen what.uuid e) ≤ sessionLifetime →
      (s.handleAt (.update what) clock now).1.session? what.uuid what.token = some e ∧
        (s.handleAt (.update what) clock now).1.standing what.uuid = .session
  update_expired : ∀ {what clock now e}, (Call.update what).validate = .ok () →
    s.session? what.uuid what.token = some e →
      sessionLifetime < Clock.sub now (s.lastSeen what.uuid e) →
      (s.handleAt (.update what) clock now).2 = .error .notAllowed ∧
        (s.handleAt (.update what) clock now).1.standing what.uuid = .allowed
  update_unknown : ∀ {what clock now}, (Call.update what).validate = .ok () →
    s.session? what.uuid what.token = none →
      s.handleAt (.update what) clock now = (s, .error .notAllowed)
  goodbye_closes : ∀ {who clock now e}, (Call.goodbye who).validate = .ok () →
    s.session? who.uuid who.token = some e →
      (s.handleAt (.goodbye who) clock now).2 = .ok .ack ∧
        (s.handleAt (.goodbye who) clock now).1.standing who.uuid = .allowed
  goodbye_unknown : ∀ {who clock now}, (Call.goodbye who).validate = .ok () →
    s.session? who.uuid who.token = none →
      s.handleAt (.goodbye who) clock now = (s, .error .notAllowed)

theorem session_of_opened (h : Held s) (hmint : Function.Injective s.authority.mint)
    (uuid : String) (clock : Int) (other : String) :
    (∃ e, Server.session? { s with authority := (s.authority.openSession uuid clock).1 } uuid other
        = some e) ↔ other = (s.authority.openSession uuid clock).2 := by
  constructor
  · intro hsome
    obtain ⟨e, he⟩ := hsome
    rcases (session?_opened h hmint uuid clock).mp he with ⟨⟨_, hother, _⟩, _⟩ | ⟨_, hne⟩
    · exact hother.symm
    · exact absurd rfl hne
  · intro hother
    exact ⟨⟨uuid, clock⟩, (session?_opened h hmint uuid clock).mpr
      (Or.inl ⟨⟨rfl, hother.symm, rfl⟩, rfl⟩)⟩

end Server

/-- Every server that a run leads to keeps to the protocol, if no token is given out
twice. -/
theorem Run.protocol {past : List Moment} {s : Server} (h : Run past s)
    (hmint : Function.Injective s.authority.mint) : s.Protocol where
  apart := h.sound.apart
  register_known valid hstanding := by
    rw [Server.handleAt_of_valid valid]
    exact Server.register_known ((Server.admitted_iff h.held).mpr hstanding)
  register_full valid hstanding hfull := by
    rw [Server.handleAt_of_valid valid]
    exact Server.register_full hstanding hfull
  register_queued valid hqueue hmanual := by
    rw [Server.handleAt_of_valid valid]
    exact Server.register_queued hqueue hmanual
  register_accepted valid hqueue hauto hdisk := by
    rw [Server.handleAt_of_valid valid]
    exact Server.register_accepted hqueue hauto hdisk
  register_unwritten valid hqueue hauto hdisk := by
    rw [Server.handleAt_of_valid valid]
    exact Server.register_unwritten hqueue hauto hdisk
  signature_given {who clock now} valid hstanding := by
    rw [Server.handleAt_of_valid valid]
    exact congrArg (Prod.mk s)
      (Server.giveSignature_allowed ((Server.admitted_iff h.held).mpr hstanding))
  signature_waiting {who clock now} valid hstanding := by
    obtain ⟨_, hallowed, hwaits⟩ := Server.standing_waiting_iff.mp hstanding
    rw [Server.handleAt_of_valid valid, Server.perform, Server.giveSignature_refused hallowed,
      hwaits, if_pos rfl]
  signature_unknown {who clock now} valid hstanding := by
    obtain ⟨_, hallowed, hwaits⟩ := Server.standing_unknown_iff.mp hstanding
    rw [Server.handleAt_of_valid valid, Server.perform, Server.giveSignature_refused hallowed,
      hwaits, if_neg Bool.false_ne_true]
  hello_opens {who clock now} valid hstanding hverified := by
    have hallowed := (Server.admitted_iff h.held).mpr hstanding
    have hopen := Server.hello_opens hallowed hverified clock
    have heffect : Effect s (.call (.hello who) clock now) _ _ := .opened hallowed hverified
    have hopened := held_effect h.held heffect
    have hsession := Server.session_of_opened h.held hmint who.uuid clock
    rw [Server.handleAt_of_valid valid, Server.perform, hopen]
    refine ⟨_, rfl, ?_, hsession, fun uuid => ?_⟩
    · exact (Server.standing_session_iff hopened.ordered).mpr ⟨_, (hsession _).mpr rfl⟩
    · rw [Option.eq_none_iff_forall_ne_some]
      intro e he
      exact h.held.fresh hmint (session?_eq_some.mp he).1 rfl
  hello_refused valid hnot := by
    rw [Server.handleAt_of_valid valid]
    rw [← Server.admitted_iff h.held] at hnot
    exact Server.hello_refused hnot _
  update_kept {what clock now e} valid he hfresh := by
    have hsame := Server.update_keeps he hfresh clock
    have hkept : (s.update what clock now).1.session? what.uuid what.token = some e := by
      rw [Server.session?, hsame]
      exact he
    have hordered : Keyed.Ordered (s.update what clock now).1.authority.roster.sessions := by
      rw [hsame]
      exact h.held.ordered
    rw [Server.handleAt_of_valid valid, Server.perform]
    exact ⟨hkept, (Server.standing_session_iff hordered).mpr ⟨_, _, hkept⟩⟩
  update_expired {what clock now e} valid he hold := by
    rw [Server.handleAt_of_valid valid, Server.perform, Server.update_expired he hold]
    exact ⟨rfl, Server.standing_closed h.held h.single he⟩
  update_unknown valid hnone := by
    rw [Server.handleAt_of_valid valid, Server.perform, Server.update_unknown hnone]
  goodbye_closes valid he := by
    rw [Server.handleAt_of_valid valid, Server.perform, Server.goodbye_closes he]
    exact ⟨rfl, Server.standing_closed h.held h.single he⟩
  goodbye_unknown valid hnone := by
    rw [Server.handleAt_of_valid valid, Server.perform, Server.goodbye_unknown hnone]

theorem greeted_protocol :
    emptyServer.standing "u" = .unknown ∧ waitingServer.standing "u" = .waiting ∧
      allowingServer.standing "u" = .allowed ∧ greetedServer.standing "u" = .session ∧
      Run greetedPast greetedServer ∧ Function.Injective greetedServer.authority.mint ∧
      greetedServer.Protocol :=
  ⟨by decide, by decide, by decide, by decide, greeted_run, growingMint_injective,
    greeted_run.protocol growingMint_injective⟩

/-! ## A key that cannot sign -/

/-- A key of 256 bits. -/
def shortKey : Rsa.Key where
  modulus := 92061709106856292167535888752483230787461898455277776306400411452759354950153
  publicExponent := 65537
  privateExponent := 44857203669823793853638761852587805494859313466899496470190585369058935026485
  prime1 := 282806483917220614599887799811179276779
  prime2 := 325528990112558317082194860413323801307

/-- A server with that key, after it allowed a machine that registered. -/
def shortServer : Server :=
  let start : Server :=
    { emptyServer with authority := { emptyServer.authority with signer := .ofKey shortKey } }
  (((start.step (.call (.register ⟨"host", "u", []⟩) 990 990)).1).step (.allow "u")).1

theorem shortServer_run : ∃ past, Run past shortServer := by
  have hstart : Authority.start (.ofKey shortKey) "" 8 growingMint 0 (.ofContents none)
      = .ok { emptyServer.authority with signer := .ofKey shortKey } := rfl
  exact ⟨_, .step (.step (.start hstart _ _ _) _) _⟩

/-- An allowed machine that gets no signature. -/
theorem shortServer_unsigned :
    shortKey.isConsistent = true ∧ (∃ past, Run past shortServer) ∧
      (Call.getSignature ⟨"host", "u", []⟩).validate = .ok () ∧
      shortServer.standing "u" = .allowed ∧
      (shortServer.handleAt (.getSignature ⟨"host", "u", []⟩) 1000 1000).2 =
        .error (.internal "private key") := by
  have hsign : (Signer.ofKey shortKey).sign "u" = none := by
    have hshort : ¬ 62 ≤ shortKey.size := by decide +kernel
    rw [← Rsa.sign_isSome_iff shortKey (Text.bytesOf "u"), Bool.not_eq_true,
      Option.isSome_eq_false_iff, Option.isNone_iff_eq_none] at hshort
    exact hshort
  have hallowed : shortServer.authority.isAllowed "u" = true := by decide
  refine ⟨by decide +kernel, shortServer_run, rfl, by decide, ?_⟩
  rw [Server.handleAt_of_valid rfl, Server.perform, Server.giveSignature_allowed hallowed,
    show shortServer.authority.signer = .ofKey shortKey from rfl, hsign]
  rfl

end Push
end FleetMesh
