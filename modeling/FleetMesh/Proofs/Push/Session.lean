/-
Sessions and the history that they come from.

A server has a session of a token exactly if its history says that the token is
live (`session?_iff_live`).  Every effect keeps that, because a session's machine
is allowed and its token is one that was given out (`Held`).

So it depends on the history alone, and on the snapshot, whether an update is
taken (`update_ack_iff`).
-/
import FleetMesh.Proofs.Mesh
import FleetMesh.Proofs.Push.Effect

namespace FleetMesh
namespace Push

/-- What holds of the sessions at every moment of a run. -/
structure Held (s : Server) : Prop where
  ordered : Keyed.Ordered s.authority.roster.sessions
  listed : Keyed.Ordered s.authority.roster.allowed
  allowed : ∀ token e, Keyed.find? token s.authority.roster.sessions = some e →
    s.authority.isAllowed e.uuid = true
  minted : ∀ token e, Keyed.find? token s.authority.roster.sessions = some e →
    ∃ i, i < s.authority.minted ∧ s.authority.mint i = token

variable {s t : Server} {input : Input} {answer : Answer}

/-! ## The invariant -/

/-- An authority that starts knows the machines of the file, and no sessions. -/
theorem start_roster {signer : Signer} {certificate : String} {limit : Nat} {mint : Nat → String}
    {minted : Nat} {ledger : Ledger} {a : Authority}
    (h : Authority.start signer certificate limit mint minted ledger = .ok a) :
    Keyed.Ordered a.roster.allowed ∧ a.roster.sessions = [] := by
  rw [Authority.start] at h
  split at h
  · exact nomatch h
  · rename_i allowed hallowed
    obtain rfl := Except.ok.inj h
    exact ⟨Ledger.ordered_allowed hallowed, rfl⟩

theorem held_of_empty (hlisted : Keyed.Ordered s.authority.roster.allowed)
    (hempty : s.authority.roster.sessions = []) : Held s where
  ordered := hempty ▸ List.Pairwise.nil
  listed := hlisted
  allowed := by
    intro token e he
    rw [hempty] at he
    exact nomatch he
  minted := by
    intro token e he
    rw [hempty] at he
    exact nomatch he

theorem mint_effect (he : Effect s input answer t) : t.authority.mint = s.authority.mint := by
  cases he with
  | spared h _ => exact h.mint
  | opened _ _ => rfl
  | closed _ => rfl
  | expired _ _ _ => rfl
  | dismissed h => exact h.mint

/-- Closing a session keeps the invariant of the others. -/
theorem held_close (h : Held s) (token : String) :
    Held { s with authority := (s.authority.closeSession token).1 } where
  ordered := Keyed.ordered_erase h.ordered token
  listed := h.listed
  allowed := fun other e he =>
    h.allowed other e ((Roster.find?_closeSession h.ordered).mp he).1
  minted := fun other e he =>
    h.minted other e ((Roster.find?_closeSession h.ordered).mp he).1

theorem held_effect (h : Held s) (he : Effect s input answer t) : Held t := by
  cases he with
  | spared hs _ =>
    refine ⟨hs.sessions ▸ h.ordered, hs.listed h.listed, fun token e he => ?_, fun token e he => ?_⟩
    · rw [hs.sessions] at he
      exact hs.allowed e.uuid (h.allowed token e he)
    · rw [hs.sessions] at he
      rw [hs.mint, hs.minted]
      exact h.minted token e he
  | @opened who clock now hallowed _ =>
    refine ⟨?_, h.listed, fun token e he => ?_, fun token e he => ?_⟩
    · exact Keyed.ordered_insert (Roster.ordered_dropSessions h.ordered who.uuid) _ _
    · rcases (Roster.find?_openSession h.ordered clock).mp he with ⟨_, rfl⟩ | ⟨_, he, _⟩
      · exact hallowed
      · exact h.allowed token e he
    · rcases (Roster.find?_openSession h.ordered clock).mp he with ⟨rfl, _⟩ | ⟨_, he, _⟩
      · exact ⟨s.authority.minted, Nat.lt_succ_self _, rfl⟩
      · obtain ⟨i, hi, hmint⟩ := h.minted token e he
        exact ⟨i, Nat.lt_succ_of_lt hi, hmint⟩
  | closed _ => exact held_close h _
  | expired _ _ _ => exact held_close h _
  | @dismissed uuid t hd =>
    refine ⟨?_, hd.listed h.listed, fun token e he => ?_, fun token e he => ?_⟩
    · rw [hd.sessions]
      exact Roster.ordered_dropSessions h.ordered uuid
    · rw [hd.sessions] at he
      obtain ⟨he, hne⟩ := (Roster.find?_dropSessions h.ordered).mp he
      exact hd.allowed h.listed e.uuid hne (h.allowed token e he)
    · rw [hd.sessions] at he
      rw [hd.mint, hd.minted]
      exact h.minted token e ((Roster.find?_dropSessions h.ordered).mp he).1

theorem Run.held {past : List Moment} (h : Run past s) : Held s := by
  induction h with
  | start h mesh autoAccept attached =>
    obtain ⟨hlisted, hempty⟩ := start_roster h
    exact held_of_empty hlisted hempty
  | step _ input ih => exact held_effect ih (Server.step_effect _ input)

/-! ## What greets and what ends

Each kind of input can end a session in one way only. -/

variable {uuid token : String} {opened : Int} {e : Session}

theorem session?_eq_some : s.session? uuid token = some e ↔
    Keyed.find? token s.authority.roster.sessions = some e ∧ e.uuid = uuid :=
  Roster.session?_eq_some

theorem Server.lastSeen_eq (s : Server) (uuid : String) (e : Session) :
    s.lastSeen uuid e = max e.issuedAt ((s.mesh.root.lastUpdate? uuid).getD e.issuedAt) :=
  Int.max_comm _ _

theorem greets_hello {who : Greeting} {clock now : Int} {given : String}
    (allowed : s.authority.isAllowed who.uuid = true)
    (verified : s.authority.signer.verify who.uuid who.signature = true) :
    Moment.Greets ⟨s, .call (.hello who) clock now, some (.ok (.token given))⟩ uuid token opened ↔
      who.uuid = uuid ∧ given = token ∧ clock = opened := by
  constructor
  · intro h
    obtain ⟨who', _, hinput, hid, _, _, hanswer⟩ := h
    obtain ⟨hwho, hclock, _⟩ := Input.call.inj hinput
    obtain rfl := Call.hello.inj hwho
    exact ⟨hid, Reply.token.inj (Except.ok.inj (Option.some.inj hanswer)), hclock⟩
  · intro h
    obtain ⟨rfl, rfl, rfl⟩ := h
    exact ⟨who, now, rfl, rfl, allowed, verified, rfl⟩

theorem ends_hello {who : Greeting} {clock now : Int} {given : String}
    (allowed : s.authority.isAllowed who.uuid = true)
    (verified : s.authority.signer.verify who.uuid who.signature = true) :
    Moment.Ends ⟨s, .call (.hello who) clock now, some (.ok (.token given))⟩ uuid token opened ↔
      who.uuid = uuid := by
  constructor
  · intro hends
    cases hends with
    | replaced hg => exact ((greets_hello allowed verified).mp hg).1
    | closed hinput _ => exact nomatch hinput
    | revoked hinput => exact nomatch hinput
    | expired hinput _ _ => exact nomatch hinput
  · intro hid
    exact .replaced ((greets_hello allowed verified).mpr ⟨hid, rfl, rfl⟩)

theorem ends_goodbye {who : Credentials} {clock now : Int} :
    Moment.Ends ⟨s, .call (.goodbye who) clock now, some (.ok .ack)⟩ uuid token opened ↔
      who.uuid = uuid ∧ who.token = token := by
  constructor
  · intro hends
    cases hends with
    | replaced hg =>
      obtain ⟨_, _, hinput, _⟩ := hg
      exact nomatch hinput
    | closed hinput _ =>
      obtain ⟨hwho, _⟩ := Input.call.inj hinput
      obtain rfl := Call.goodbye.inj hwho
      exact ⟨rfl, rfl⟩
    | revoked hinput => exact nomatch hinput
    | expired hinput _ _ => exact nomatch hinput
  · intro h
    obtain ⟨rfl, rfl⟩ := h
    exact .closed rfl rfl

theorem ends_update {what : Delivery} {clock now : Int}
    (valid : (Call.update what).validate = .ok ()) :
    Moment.Ends ⟨s, .call (.update what) clock now, answer⟩ uuid token opened ↔
      what.uuid = uuid ∧ what.token = token ∧
        sessionLifetime < Clock.sub now (max opened ((s.mesh.root.lastUpdate? uuid).getD opened)) := by
  constructor
  · intro hends
    cases hends with
    | replaced hg =>
      obtain ⟨_, _, hinput, _⟩ := hg
      exact nomatch hinput
    | closed hinput _ => exact nomatch hinput
    | revoked hinput => exact nomatch hinput
    | expired hinput _ hold =>
      obtain ⟨hwhat, _, rfl⟩ := Input.call.inj hinput
      obtain rfl := Call.update.inj hwhat
      exact ⟨rfl, rfl, hold⟩
  · intro h
    obtain ⟨rfl, rfl, hold⟩ := h
    exact .expired rfl valid hold

theorem ends_revoke {other : String} :
    Moment.Ends ⟨s, .revoke other, none⟩ uuid token opened ↔ other = uuid := by
  constructor
  · intro hends
    cases hends with
    | replaced hg =>
      obtain ⟨_, _, hinput, _⟩ := hg
      exact nomatch hinput
    | closed hinput _ => exact nomatch hinput
    | revoked hinput => exact Input.revoke.inj hinput
    | expired hinput _ _ => exact nomatch hinput
  · intro h
    subst h
    exact .revoked rfl

/-- Only a hello greets. -/
theorem greets_input (h : Moment.Greets ⟨s, input, answer⟩ uuid token opened) :
    ∃ who now, input = .call (.hello who) opened now := by
  obtain ⟨who, now, hinput, _⟩ := h
  exact ⟨who, now, hinput⟩

theorem Quiet.not_greets (h : Quiet s input answer) :
    ¬ Moment.Greets ⟨s, input, answer⟩ uuid token opened := by
  intro h
  obtain ⟨who, now, hinput, _, _, _, hanswer⟩ := h
  exact h.hello hinput hanswer

theorem Quiet.not_ends (hs : Held s) (h : Quiet s input answer) (he : s.session? uuid token = some e) :
    ¬ Moment.Ends ⟨s, input, answer⟩ uuid token e.issuedAt := by
  intro hends
  cases hends with
  | replaced hg => exact h.not_greets hg
  | closed hinput hanswer => exact h.goodbye hinput hanswer
  | revoked hinput =>
    obtain ⟨hfind, rfl⟩ := session?_eq_some.mp he
    have hnot := h.revoke hinput
    rw [hs.allowed token e hfind] at hnot
    exact nomatch hnot
  | expired hinput valid old =>
    have hfresh := h.update hinput valid he
    rw [Server.lastSeen_eq] at hfresh
    exact Int.not_lt.mpr hfresh old

/-! ## One step -/

/-- A token that is given out now is nobody's yet. -/
theorem Held.fresh (h : Held s) (hmint : Function.Injective s.authority.mint)
    (hfind : Keyed.find? token s.authority.roster.sessions = some e) :
    s.authority.mint s.authority.minted ≠ token := by
  obtain ⟨i, hi, rfl⟩ := h.minted token e hfind
  intro he
  exact Nat.lt_irrefl i (hmint he ▸ hi)

/-- The session of a token that was closed was its machine's. -/
theorem session?_closed (h : Held s) {owner closed : String} {d : Session}
    (hd : s.session? owner closed = some d) :
    Server.session? { s with authority := (s.authority.closeSession closed).1 } uuid token = some e ↔
      s.session? uuid token = some e ∧ ¬ (owner = uuid ∧ closed = token) := by
  rw [session?_eq_some, session?_eq_some]
  show Keyed.find? token (s.authority.roster.closeSession closed).sessions = some e ∧ _ ↔ _
  rw [Roster.find?_closeSession h.ordered]
  constructor
  · intro h
    obtain ⟨⟨hfind, hne⟩, hid⟩ := h
    exact ⟨⟨hfind, hid⟩, fun hsame => hne hsame.2⟩
  · intro h
    obtain ⟨⟨hfind, hid⟩, hother⟩ := h
    refine ⟨⟨hfind, fun htoken => hother ⟨?_, htoken⟩⟩, hid⟩
    obtain ⟨hfind', hid'⟩ := session?_eq_some.mp hd
    subst htoken
    obtain rfl := Option.some.inj (hfind.symm.trans hfind')
    exact hid'.symm.trans hid

theorem session?_opened (h : Held s) (hmint : Function.Injective s.authority.mint)
    (owner : String) (clock : Int) :
    Server.session? { s with authority := (s.authority.openSession owner clock).1 } uuid token
        = some e ↔
      (owner = uuid ∧ (s.authority.openSession owner clock).2 = token ∧ clock = e.issuedAt) ∧
          e.uuid = uuid ∨
        s.session? uuid token = some e ∧ ¬ owner = uuid := by
  rw [session?_eq_some, session?_eq_some]
  show Keyed.find? token (s.authority.roster.openSession _ owner clock).sessions = some e ∧ _ ↔ _
  rw [Roster.find?_openSession h.ordered]
  constructor
  · intro h
    rcases h with ⟨⟨rfl, rfl⟩ | ⟨_, hfind, hne⟩, rfl⟩
    · exact Or.inl ⟨⟨rfl, rfl, rfl⟩, rfl⟩
    · exact Or.inr ⟨⟨hfind, rfl⟩, fun hid => hne hid.symm⟩
  · intro h
    rcases h with ⟨⟨rfl, htoken, rfl⟩, hid⟩ | ⟨⟨hfind, rfl⟩, hne⟩
    · refine ⟨Or.inl ⟨htoken, ?_⟩, hid⟩
      rw [← hid]
    · exact ⟨Or.inr ⟨h.fresh hmint hfind, hfind, fun hid => hne hid.symm⟩, rfl⟩

theorem session?_dismissed (h : Held s) {other : String}
    (hd : Authority.Dismissed s.authority t.authority other) :
    t.session? uuid token = some e ↔ s.session? uuid token = some e ∧ ¬ other = uuid := by
  rw [session?_eq_some, session?_eq_some, hd.sessions, Roster.find?_dropSessions h.ordered]
  constructor
  · intro hsome
    obtain ⟨⟨hfind, hne⟩, rfl⟩ := hsome
    exact ⟨⟨hfind, rfl⟩, fun hid => hne hid.symm⟩
  · intro hsome
    obtain ⟨⟨hfind, rfl⟩, hne⟩ := hsome
    exact ⟨⟨hfind, fun hid => hne hid.symm⟩, rfl⟩

/-- Which sessions there are after a step, by what the step was. -/
theorem session?_effect (h : Held s) (hmint : Function.Injective s.authority.mint)
    (he : Effect s input answer t) :
    t.session? uuid token = some e ↔
      Moment.Greets ⟨s, input, answer⟩ uuid token e.issuedAt ∧ e.uuid = uuid ∨
        s.session? uuid token = some e ∧
          ¬ Moment.Ends ⟨s, input, answer⟩ uuid token e.issuedAt := by
  -- in all cases but a hello's the step greets nobody, and only its endings count
  have hdeaf : (∀ who clock now, input ≠ .call (.hello who) clock now) →
      ¬ (Moment.Greets ⟨s, input, answer⟩ uuid token e.issuedAt ∧ e.uuid = uuid) := by
    intro hother hg
    obtain ⟨who, now, hinput⟩ := greets_input hg.1
    exact hother who e.issuedAt now hinput
  cases he with
  | spared hs quiet =>
    have hsame : t.session? uuid token = s.session? uuid token := by
      rw [Server.session?, Roster.session?, hs.sessions]
      rfl
    rw [hsame, or_iff_right fun hg => quiet.not_greets hg.1]
    exact ⟨fun hsome => ⟨hsome, quiet.not_ends h hsome⟩, fun hsome => hsome.1⟩
  | opened hallowed hverified =>
    rw [greets_hello hallowed hverified, ends_hello hallowed hverified]
    exact session?_opened h hmint _ _
  | closed hd =>
    rw [or_iff_right (hdeaf (by simp)), ends_goodbye, session?_closed h hd]
  | @expired what clock now d valid hd hold =>
    rw [or_iff_right (hdeaf (by simp)), ends_update valid, session?_closed h hd]
    refine and_congr_right fun hsome => not_congr ⟨?_, fun hsame => ⟨hsame.1, hsame.2.1⟩⟩
    intro h
    obtain ⟨rfl, rfl⟩ := h
    obtain rfl := Option.some.inj (hd.symm.trans hsome)
    rw [← Server.lastSeen_eq]
    exact ⟨rfl, rfl, hold⟩
  | dismissed hd =>
    rw [or_iff_right (hdeaf (by simp)), ends_revoke, session?_dismissed h hd]

/-! ## Runs -/

/-- The sessions of a server are the tokens that are live in its history. -/
theorem session?_iff_live {past : List Moment} (h : Run past s)
    (hmint : Function.Injective s.authority.mint) :
    s.session? uuid token = some e ↔ Live past uuid token e.issuedAt ∧ e.uuid = uuid := by
  induction h with
  | start h mesh autoAccept attached =>
    obtain ⟨_, hempty⟩ := start_roster h
    rw [session?_eq_some, hempty]
    constructor
    · intro hsome
      exact nomatch hsome.1
    · intro hlive
      exact absurd hlive.1 (not_live_nil _ _ _)
  | @step past s hrun input ih =>
    have heffect := Server.step_effect s input
    rw [mint_effect heffect] at hmint
    rw [session?_effect hrun.held hmint heffect, ih hmint, live_cons]
    show (s.moment input).Greets _ _ _ ∧ _ ∨ _ ∧ ¬ (s.moment input).Ends _ _ _ ↔ _
    constructor
    · intro h
      rcases h with ⟨hg, hid⟩ | ⟨⟨hlive, hid⟩, hends⟩
      · exact ⟨Or.inl hg, hid⟩
      · exact ⟨Or.inr ⟨hlive, hends⟩, hid⟩
    · intro h
      rcases h with ⟨hg | ⟨hlive, hends⟩, hid⟩
      · exact Or.inl ⟨hg, hid⟩
      · exact Or.inr ⟨⟨hlive, hid⟩, hends⟩

theorem live_iff_session? {past : List Moment} (h : Run past s)
    (hmint : Function.Injective s.authority.mint) :
    Live past uuid token opened ↔ s.session? uuid token = some ⟨uuid, opened⟩ := by
  rw [session?_iff_live h hmint]
  exact ⟨fun hlive => ⟨hlive, rfl⟩, fun hlive => hlive.1⟩

/-- A live token was given out once. -/
theorem Live.unique {past : List Moment} {other : Int} (hother : Live past uuid token other)
    (h : Run past s) (hmint : Function.Injective s.authority.mint)
    (hlive : Live past uuid token opened) : other = opened := by
  rw [live_iff_session? h hmint] at hother hlive
  exact congrArg Session.issuedAt (Option.some.inj (hother.symm.trans hlive))

/-- A session is good for as long as its token is, by the history. -/
theorem live_recent_iff {past : List Moment} (h : Run past s)
    (hmint : Function.Injective s.authority.mint) (he : s.session? uuid token = some e)
    (now : Int) :
    (∃ opened, Live past uuid token opened ∧
      Clock.sub now (max opened ((s.mesh.root.lastUpdate? uuid).getD opened)) ≤ sessionLifetime) ↔
      Clock.sub now (s.lastSeen uuid e) ≤ sessionLifetime := by
  rw [Server.lastSeen_eq]
  constructor
  · intro hrecent
    obtain ⟨opened, hlive, hrecent⟩ := hrecent
    rw [live_iff_session? h hmint] at hlive
    obtain rfl := Option.some.inj (he.symm.trans hlive)
    exact hrecent
  · intro hrecent
    exact ⟨e.issuedAt, ((session?_iff_live h hmint).mp he).1, hrecent⟩

theorem deposit_ack (s : Server) (node : Node) (clock : Int) :
    (s.deposit node clock).2 = .ok .ack ↔ node.uuid ≠ "" ∧ node.uuid ≠ s.mesh.root.uuid := by
  by_cases hid : node.uuid = ""
  · have hm : s.mesh.root.merge node clock = (s.mesh.root, .refused .noIdentity) := if_pos hid
    simp [Server.deposit, Mesh.merge, hm, hid]
  by_cases hne : node.uuid = s.mesh.root.uuid
  · have hm : s.mesh.root.merge node clock = (s.mesh.root, .refused .ownIdentity) := by
      rw [Node.merge, if_neg hid, if_pos hne]
    simp [Server.deposit, Mesh.merge, hm, hne]
  · obtain ⟨events, hm⟩ := Node.merge_eq hid hne clock
    simp [Server.deposit, Mesh.merge, hm, hid, hne]

theorem uuid_of_valid {what : Delivery} (h : (Call.update what).validate = .ok ()) :
    what.uuid ≠ "" := by
  intro he
  have hinvalid : checkUuid what.uuid = .error (.invalid "malformed uuid") := by
    rw [he]
    rfl
  rw [Call.validate, hinvalid] at h
  exact nomatch h

/-- Within a good session an update is taken if it brings the machine's snapshot. -/
theorem update_ack {what : Delivery} {now : Int} (clock : Int) (hid : what.uuid ≠ "")
    (h : s.authenticate what.uuid what.token now = (s, .ok ())) :
    (s.update what clock now).2 = .ok .ack ↔
      (∃ node, Node.ofText clock what.node 0 = .ok node ∧ node.uuid = what.uuid) ∧
        what.uuid ≠ s.mesh.root.uuid := by
  rw [Server.update, h]
  dsimp only
  cases hnode : Node.ofText clock what.node 0 with
  | error e => simp
  | ok node =>
    dsimp only
    by_cases hsame : node.uuid = what.uuid
    · rw [if_neg (not_not_intro hsame), deposit_ack, hsame]
      simp [hid, hsame]
    · rw [if_pos hsame]
      simp [hsame]

/-- An update is taken exactly if it is valid, shows a live token in time, and brings a
snapshot of the machine itself, which is not the server. -/
theorem update_taken_iff {past : List Moment} (h : Run past s)
    (hmint : Function.Injective s.authority.mint) (what : Delivery) (clock now : Int) :
    (s.handleAt (.update what) clock now).2 = .ok .ack ↔
      (Call.update what).validate = .ok () ∧
      (∃ opened, Live past what.uuid what.token opened ∧
        Clock.sub now (max opened ((s.mesh.root.lastUpdate? what.uuid).getD opened))
          ≤ sessionLifetime) ∧
      (∃ node, Node.ofText clock what.node 0 = .ok node ∧ node.uuid = what.uuid) ∧
      what.uuid ≠ s.mesh.root.uuid := by
  rw [Server.handleAt]
  cases valid : (Call.update what).validate with
  | error f => simp
  | ok u =>
    show (s.update what clock now).2 = .ok .ack ↔ _
    rcases s.authenticate_cases what.uuid what.token now with ⟨hnone, ha⟩ | ⟨e, he, hage⟩
    · rw [Server.update, ha]
      simp [live_iff_session? h hmint, hnone]
    · rw [live_recent_iff h hmint he]
      rcases hage with ⟨hold, ha⟩ | ⟨hfresh, ha⟩
      · rw [Server.update, ha]
        have hnot : ¬ Clock.sub now (s.lastSeen what.uuid e) ≤ sessionLifetime :=
          Int.not_le.mpr hold
        simp [hnot]
      · rw [update_ack clock (uuid_of_valid valid) ha]
        exact ⟨fun hnode => ⟨rfl, hfresh, hnode⟩, fun hall => hall.2.2⟩

/-- An update is taken exactly if its token is live in the history of the run, not
too long after the hello or the last snapshot, and if it brings a snapshot of the
machine itself, which is not the server.  How long that is counts as the clock's word
counts it, which is the plain difference of the two times wherever the word can say
it. -/
theorem update_ack_iff {past : List Moment} (h : Run past s)
    (hmint : Function.Injective s.authority.mint) (what : Delivery) (clock now : Int) :
    ((s.handleAt (.update what) clock now).2 = .ok .ack ↔
      (Call.update what).validate = .ok () ∧
      (∃ opened, Live past what.uuid what.token opened ∧
        Clock.sub now (max opened ((s.mesh.root.lastUpdate? what.uuid).getD opened))
          ≤ sessionLifetime) ∧
      (∃ node, Node.ofText clock what.node 0 = .ok node ∧ node.uuid = what.uuid) ∧
      what.uuid ≠ s.mesh.root.uuid) ∧
    ∀ opened, Live past what.uuid what.token opened →
      Clock.Says (now - max opened ((s.mesh.root.lastUpdate? what.uuid).getD opened)) →
      ((s.handleAt (.update what) clock now).2 = .ok .ack ↔
        (Call.update what).validate = .ok () ∧
        now - max opened ((s.mesh.root.lastUpdate? what.uuid).getD opened) ≤ sessionLifetime ∧
        (∃ node, Node.ofText clock what.node 0 = .ok node ∧ node.uuid = what.uuid) ∧
        what.uuid ≠ s.mesh.root.uuid) := by
  have hiff := update_taken_iff h hmint what clock now
  refine ⟨hiff, fun opened hlive hsays => ?_⟩
  rw [hiff, ← Clock.sub_eq hsays]
  refine and_congr_right fun _ => and_congr_left fun _ => ⟨fun hrecent => ?_, fun hrecent => ?_⟩
  · obtain ⟨other, hother, hrecent⟩ := hrecent
    obtain rfl := hother.unique h hmint hlive
    exact hrecent
  · exact ⟨opened, hlive, hrecent⟩

/-! ## A run -/

/-- Tokens that get longer. -/
def growingMint (i : Nat) : String := String.ofList (List.replicate (i + 1) 'k')

theorem growingMint_injective : Function.Injective growingMint := by
  intro i j h
  have hlength := congrArg List.length (String.ofList_injective h)
  rw [List.length_replicate, List.length_replicate] at hlength
  exact Nat.succ.inj hlength

/-- A server that nobody is known to, with one signature for all. -/
def emptyServer : Server :=
  ⟨⟨⟨fun _ => some [1], fun _ signature => signature == [1]⟩, "", 8, growingMint, 0,
    .ofAllowed [], .ofContents none⟩, Mesh.new (Node.new "r" "root" "" 0) 60, false, true⟩

def waitingServer : Server := (emptyServer.step (.call (.register ⟨"host", "u", []⟩) 990 990)).1

def allowingServer : Server := (waitingServer.step (.allow "u")).1

def greetedServer : Server :=
  (allowingServer.step (.call (.hello ⟨"host", "u", [1]⟩) 1000 1000)).1

def greetedPast : List Moment :=
  [allowingServer.moment (.call (.hello ⟨"host", "u", [1]⟩) 1000 1000),
    waitingServer.moment (.allow "u"),
    emptyServer.moment (.call (.register ⟨"host", "u", []⟩) 990 990)]

theorem greeted_run : Run greetedPast greetedServer := by
  have hstart : Authority.start emptyServer.authority.signer "" 8 growingMint 0 (.ofContents none)
      = .ok emptyServer.authority := rfl
  exact .step (.step (.step (.start hstart _ _ _) _) _) _

/-- What `u` sends in its session. -/
def greetedDelivery : Delivery := ⟨"u", "k", (Node.machine "u" []).toText⟩

theorem greetedDelivery_read : ∃ node, Node.ofText 1300 greetedDelivery.node 0 = .ok node ∧
    node.uuid = greetedDelivery.uuid := by
  have hread : (Node.ofText 1300 greetedDelivery.node 0).toOption.map (fun node => node.uuid) =
      some greetedDelivery.uuid := by decide +kernel
  cases hnode : Node.ofText 1300 greetedDelivery.node 0 with
  | error e =>
    rw [hnode] at hread
    cases hread
  | ok node =>
    rw [hnode] at hread
    exact ⟨node, rfl, Option.some.inj hread⟩

/-- At the end of its lifetime the session still takes the snapshot, and a second later
it does not.  Nor does it at the clock's least time, whose difference is past the word. -/
theorem greeted_update_ack :
    Run greetedPast greetedServer ∧ Function.Injective greetedServer.authority.mint ∧
      Live greetedPast "u" "k" 1000 ∧ Clock.Says (1301 - max 1000
        ((greetedServer.mesh.root.lastUpdate? "u").getD 1000)) ∧
      (greetedServer.handleAt (.update greetedDelivery) 1300 1300).2 = .ok .ack ∧
      (greetedServer.handleAt (.update greetedDelivery) 1301 1301).2 ≠ .ok .ack ∧
      (greetedServer.handleAt (.update greetedDelivery) 1300 (-0x8000000000000000)).2
        ≠ .ok .ack := by
  have hmint : Function.Injective greetedServer.authority.mint := growingMint_injective
  have hsession : greetedServer.session? "u" "k" = some ⟨"u", 1000⟩ := by decide
  have hlive : Live greetedPast "u" "k" 1000 :=
    ((session?_iff_live greeted_run hmint).mp hsession).1
  have hsays : Clock.Says (1301 - max 1000
      ((greetedServer.mesh.root.lastUpdate? "u").getD 1000)) := by decide
  refine ⟨greeted_run, hmint, hlive, hsays, ?_, fun hack => ?_, fun hack => ?_⟩
  · refine (update_ack_iff greeted_run hmint greetedDelivery 1300 1300).1.mpr
      ⟨by decide +kernel, ⟨1000, hlive, by decide⟩, greetedDelivery_read, by decide⟩
  · obtain ⟨_, hrecent, _⟩ :=
      ((update_ack_iff greeted_run hmint greetedDelivery 1301 1301).2 1000 hlive hsays).mp hack
    exact absurd hrecent (by decide)
  · obtain ⟨_, ⟨opened, hopened, hrecent⟩, _⟩ :=
      (update_ack_iff greeted_run hmint greetedDelivery 1300 (-0x8000000000000000)).1.mp hack
    obtain rfl := hopened.unique greeted_run hmint hlive
    exact absurd hrecent (by decide)

end Push
end FleetMesh
