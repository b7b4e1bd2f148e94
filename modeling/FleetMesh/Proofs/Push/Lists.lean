/-
Who waits, who is allowed, and who has which token.

Along a run a machine is on at most one of the two lists, the one of those that wait
is no longer than it may be (`Run.sound`), and a machine has at most one token
(`Run.single`).  Since only allowed machines have tokens, there are no more tokens
than allowed machines (`Run.roster_consistent`).
-/
import FleetMesh.Proofs.Push.Admission
import FleetMesh.Proofs.Push.Session
import Mathlib.Data.List.Perm.Subperm

namespace FleetMesh
namespace Push

/-! ## The two lists -/

/-- Whether the lists fit together: nobody that waits is allowed, and no more wait
than there is room for. -/
structure Lists.Sound (l : Lists) : Prop where
  queued : Keyed.Ordered l.waiting
  listed : Keyed.Ordered l.allowed
  apart : ∀ uuid, Keyed.contains uuid l.waiting = true → Keyed.contains uuid l.allowed = false
  room : l.waiting.length ≤ l.limit

theorem Lists.Sound.move {l l' : Lists} {uuid : String} (h : l.Sound) (hm : Move uuid l l') :
    l'.Sound := by
  have hleft := Keyed.ordered_erase h.queued uuid
  have hfewer : (Keyed.erase uuid l.waiting).length ≤ l.limit :=
    (Keyed.erase_sublist uuid l.waiting).length_le.trans h.room
  have hwaited := fun other => (Keyed.contains_erase h.queued uuid other).mp
  cases hm with
  | @queue hostname named shown stranger idle room =>
    refine ⟨Keyed.ordered_insert h.queued uuid hostname, h.listed, fun other hwaits => ?_, ?_⟩
    · rcases (Keyed.contains_insert uuid other hostname _).mp hwaits with rfl | hwaits
      · exact stranger
      · exact h.apart other hwaits
    · exact (Keyed.length_insert_le uuid hostname l.waiting).trans room
  | @approve hostname ledger waits written =>
    refine ⟨hleft, Keyed.ordered_insert h.listed uuid hostname, fun other hwaits => ?_, hfewer⟩
    obtain ⟨hne, hwaits⟩ := hwaited other hwaits
    rw [Bool.eq_false_iff]
    intro hallowed
    rcases (Keyed.contains_insert uuid other hostname _).mp hallowed with hsame | hallowed
    · exact hne hsame
    · exact nomatch (h.apart other hwaits).symm.trans hallowed
  | leave =>
    exact ⟨hleft, h.listed, fun other hwaits => h.apart other (hwaited other hwaits).2, hfewer⟩
  | @expel ledger written =>
    refine ⟨h.queued, Keyed.ordered_erase h.listed uuid, fun other hwaits => ?_, h.room⟩
    rw [Bool.eq_false_iff]
    intro hallowed
    have hallowed := ((Keyed.contains_erase h.listed uuid other).mp hallowed).2
    exact nomatch (h.apart other hwaits).symm.trans hallowed

theorem Move.limit_eq {l l' : Lists} {uuid : String} (hm : Move uuid l l') :
    l'.limit = l.limit := by
  cases hm <;> rfl

namespace Server

variable {s t : Server} {input : Input} {answer : Answer}

theorem sound_step (h : s.authority.lists.Sound) (input : Input) :
    (s.step input).1.authority.lists.Sound := by
  rcases step_moves s input with ⟨uuid, hmoves⟩ | ⟨ledger, _, he⟩
  · exact hmoves.keep (fun _ _ hk hm => hk.move hm) h
  · rw [he]
    exact ⟨h.queued, h.listed, h.apart, h.room⟩

theorem limit_step (s : Server) (input : Input) :
    (s.step input).1.authority.limit = s.authority.limit := by
  show (s.step input).1.authority.lists.limit = s.authority.lists.limit
  rcases step_moves s input with ⟨uuid, hmoves⟩ | ⟨ledger, _, he⟩
  · exact Moves.keep (P := fun l => l.limit = s.authority.lists.limit) hmoves
      (fun _ _ hk hm => hm.limit_eq.trans hk) rfl
  · rw [he]

/-! ## One token each -/

/-- No machine has two tokens. -/
def Single (s : Server) : Prop :=
  ∀ uuid token other d e, s.session? uuid token = some d → s.session? uuid other = some e →
    token = other

theorem Single.of_fewer (h : s.Single)
    (hfewer : ∀ uuid token e, t.session? uuid token = some e → s.session? uuid token = some e) :
    t.Single :=
  fun uuid token other d e hd he => h uuid token other d e (hfewer _ _ _ hd) (hfewer _ _ _ he)

theorem single_effect (h : Held s) (hs : s.Single) (he : Effect s input answer t) : t.Single := by
  cases he with
  | spared hsame _ =>
    refine hs.of_fewer fun uuid token e he => ?_
    rwa [session?, Roster.session?, hsame.sessions] at he
  | closed hd => exact hs.of_fewer fun uuid token e he => ((session?_closed h hd).mp he).1
  | expired _ hd _ => exact hs.of_fewer fun uuid token e he => ((session?_closed h hd).mp he).1
  | dismissed hd => exact hs.of_fewer fun uuid token e he => ((session?_dismissed h hd).mp he).1
  | @opened who clock now _ _ =>
    intro uuid token other d e hd he
    rw [session?_eq_some] at hd he
    rcases (Roster.find?_openSession h.ordered clock).mp hd.1 with ⟨ht, hd'⟩ | ⟨_, hd', hdne⟩
    · rcases (Roster.find?_openSession h.ordered clock).mp he.1 with ⟨ho, _⟩ | ⟨_, _, hene⟩
      · exact ht.symm.trans ho
      · rw [hd'] at hd
        exact absurd (he.2.trans hd.2.symm) hene
    · rcases (Roster.find?_openSession h.ordered clock).mp he.1 with ⟨_, he'⟩ | ⟨_, he', _⟩
      · rw [he'] at he
        exact absurd (hd.2.trans he.2.symm) hdne
      · exact hs uuid token other d e (session?_eq_some.mpr ⟨hd', hd.2⟩)
          (session?_eq_some.mpr ⟨he', he.2⟩)

end Server

/-! ## Runs -/

variable {s : Server} {past : List Moment}

theorem Run.sound (h : Run past s) : s.authority.lists.Sound := by
  induction h with
  | start h mesh autoAccept attached =>
    obtain ⟨hlisted, _⟩ := start_roster h
    rw [Authority.start] at h
    split at h
    · cases h
    · obtain rfl := Except.ok.inj h
      exact ⟨List.Pairwise.nil, hlisted, fun uuid hwaits => absurd hwaits Bool.false_ne_true,
        Nat.zero_le _⟩
  | step h input ih => exact Server.sound_step ih input

/-- The room for machines that wait is what it was at the start. -/
theorem Run.limit_eq (h : Run past s) : s.authority.limit = (origin past s).authority.limit := by
  induction h with
  | start h mesh autoAccept attached => rfl
  | step h input ih => exact (Server.limit_step _ input).trans ih

theorem Run.single (h : Run past s) : s.Single := by
  induction h with
  | start h mesh autoAccept attached =>
    intro uuid token other d e hd
    rw [session?_eq_some, (start_roster h).2] at hd
    cases hd.1
  | step h input ih => exact Server.single_effect h.held ih (Server.step_effect _ input)

/-- The machines that have tokens, one for each token. -/
def Server.holders (s : Server) : List String :=
  s.authority.roster.sessions.map (fun entry => entry.2.uuid)

theorem Run.nodup_holders (h : Run past s) : s.holders.Nodup := by
  rw [Server.holders, List.Nodup, List.pairwise_map]
  refine List.Pairwise.imp_of_mem (fun {d e} hd he hlt hsame => ?_) h.held.ordered
  have hds := session?_eq_some.mpr ⟨Keyed.find?_of_mem h.held.ordered hd, hsame⟩
  have hes := session?_eq_some.mpr ⟨Keyed.find?_of_mem h.held.ordered he, rfl⟩
  have htoken : d.1 = e.1 := h.single e.2.uuid d.1 e.1 d.2 e.2 hds hes
  exact String.lt_irrefl e.1 (htoken ▸ hlt)

theorem Run.allowed_of_holder (h : Run past s) {uuid : String} (hu : uuid ∈ s.holders) :
    s.authority.isAllowed uuid = true := by
  obtain ⟨entry, he, rfl⟩ := List.mem_map.mp hu
  exact h.held.allowed entry.1 entry.2 (Keyed.find?_of_mem h.held.ordered he)

/-- At every moment of a run the lists and the tokens fit together, whether or not
the file could be written.  So there are no more tokens than allowed machines. -/
theorem Run.roster_consistent (h : Run past s) :
    (∀ uuid, ¬ (s.authority.isWaiting uuid = true ∧ s.authority.isAllowed uuid = true)) ∧
      s.authority.roster.waiting.length ≤ (origin past s).authority.limit ∧
      s.holders.Nodup ∧
      (∀ uuid ∈ s.holders, s.authority.isAllowed uuid = true) ∧
      s.authority.roster.sessions.length ≤ s.authority.roster.allowed.length := by
  refine ⟨fun uuid hboth => ?_, ?_, h.nodup_holders, fun _ => h.allowed_of_holder, ?_⟩
  · exact nomatch (h.sound.apart uuid hboth.1).symm.trans hboth.2
  · rw [← h.limit_eq]
    exact h.sound.room
  · have hlisted : s.holders ⊆ Keyed.keys s.authority.roster.allowed := fun uuid hu =>
      Keyed.contains_iff_mem_keys.mp (h.allowed_of_holder hu)
    have hlength := (h.nodup_holders.subperm hlisted).length_le
    rwa [Server.holders, Keyed.keys, List.length_map, List.length_map] at hlength

/-- Two machines have sessions when the disk fails.  One of them is forgotten, which
cannot be written down, and a third one registers. -/
def failedDisk : List Moment × Server :=
  continued greetedPast greetedServer
    [.call (.register ⟨"host", "v", []⟩) 1000 1000, .allow "v",
      .call (.hello ⟨"host", "v", [1]⟩) 1010 1010,
      .disk { Ledger.ofContents none with writable := false }, .revoke "u",
      .call (.register ⟨"host", "w", []⟩) 1020 1020, .allow "w"]

theorem failedDisk_consistent :
    Run failedDisk.1 failedDisk.2 ∧
      failedDisk.2.authority.roster =
        ⟨[("w", "host")], [("u", "host"), ("v", "host")], [("kk", ⟨"v", 1010⟩)]⟩ ∧
      (∀ uuid, ¬ (failedDisk.2.authority.isWaiting uuid = true ∧
        failedDisk.2.authority.isAllowed uuid = true)) ∧
      failedDisk.2.authority.roster.waiting.length
        ≤ (origin failedDisk.1 failedDisk.2).authority.limit ∧
      failedDisk.2.holders.Nodup ∧
      (∀ uuid ∈ failedDisk.2.holders, failedDisk.2.authority.isAllowed uuid = true) ∧
      failedDisk.2.authority.roster.sessions.length
        ≤ failedDisk.2.authority.roster.allowed.length :=
  ⟨greeted_run.continued _, by decide, (greeted_run.continued _).roster_consistent⟩

end Push
end FleetMesh
