/-
What a call leaves of the machines that it is not presented under.

Such a machine keeps its places on the lists, its sessions and its record in the
tree (`Run.isolated`), whatever the call brings: another machine's token, or a
snapshot that has other machines in it.  The lists are kept because only the caller
moves, the sessions because a session is closed with its own machine's token only,
and the tree because a child of the root is nearer to it than anything in the
caller's snapshot.
-/
import FleetMesh.Proofs.Duplicates.Repeat
import FleetMesh.Proofs.Push.Lists

namespace FleetMesh
namespace Push

/-- Whether a machine stands as it did: on the lists, with its sessions, and in the
tree, where its place below the root and its own record count. -/
structure Untouched (s t : Server) (uuid : String) : Prop where
  waiting : Keyed.find? uuid t.authority.roster.waiting
    = Keyed.find? uuid s.authority.roster.waiting
  allowed : Keyed.find? uuid t.authority.roster.allowed
    = Keyed.find? uuid s.authority.roster.allowed
  session : ∀ token, t.session? uuid token = s.session? uuid token
  record : Node.own? [uuid] t.mesh.root = Node.own? [uuid] s.mesh.root

variable {s t : Server} {past : List Moment} {c : Call} {other : String}

/-! ## The lists -/

/-- A move changes the lists at the machine that moves only. -/
theorem Move.find?_of_ne {l l' : Lists} {uuid : String} (hm : Move uuid l l') (hs : l.Sound)
    (hne : uuid ≠ other) :
    Keyed.find? other l'.waiting = Keyed.find? other l.waiting ∧
      Keyed.find? other l'.allowed = Keyed.find? other l.allowed := by
  have hleft : Keyed.find? other (Keyed.erase uuid l.waiting) = Keyed.find? other l.waiting := by
    rw [Keyed.find?_erase hs.queued, if_neg hne]
  cases hm with
  | queue => exact ⟨by rw [Keyed.find?_insert, if_neg hne], rfl⟩
  | approve => exact ⟨hleft, by rw [Keyed.find?_insert, if_neg hne]⟩
  | leave => exact ⟨hleft, rfl⟩
  | expel => exact ⟨rfl, by rw [Keyed.find?_erase hs.listed, if_neg hne]⟩

theorem Moves.find?_of_ne {l l' : Lists} {uuid : String} (h : Moves uuid l l') (hs : l.Sound)
    (hne : uuid ≠ other) :
    Keyed.find? other l'.waiting = Keyed.find? other l.waiting ∧
      Keyed.find? other l'.allowed = Keyed.find? other l.allowed := by
  induction h with
  | refl => exact ⟨rfl, rfl⟩
  | tail hbefore hm ih =>
    have hsound := Moves.keep hbefore (fun _ _ hk hm => hk.move hm) hs
    obtain ⟨hwaiting, hallowed⟩ := hm.find?_of_ne hsound hne
    exact ⟨hwaiting.trans ih.1, hallowed.trans ih.2⟩

namespace Server

theorem find?_lists_handleAt (h : s.authority.lists.Sound) (hcall : c.caller? ≠ some other)
    (clock now : Int) :
    Keyed.find? other (s.handleAt c clock now).1.authority.roster.waiting
        = Keyed.find? other s.authority.roster.waiting ∧
      Keyed.find? other (s.handleAt c clock now).1.authority.roster.allowed
        = Keyed.find? other s.authority.roster.allowed := by
  rcases moves_handleAt s c clock now with he | ⟨uuid, hcaller, hmoves⟩
  · exact ⟨congrArg (fun l => Keyed.find? other l.waiting) he,
      congrArg (fun l => Keyed.find? other l.allowed) he⟩
  · exact hmoves.find?_of_ne h fun hu => hcall (hcaller.trans (congrArg some hu))

/-! ## The sessions -/

/-- What a call does to the sessions it does to the caller's. -/
theorem session?_handleAt (h : Held s)
    (hfresh : Keyed.find? (s.authority.mint s.authority.minted) s.authority.roster.sessions = none)
    (hcall : c.caller? ≠ some other) (clock now : Int) (token : String) :
    (s.handleAt c clock now).1.session? other token = s.session? other token := by
  have heffect := handleAt_effect s c clock now
  generalize (s.handleAt c clock now).1 = t at heffect
  generalize some (s.handleAt c clock now).2 = answer at heffect
  ext e
  cases heffect with
  | spared hs _ =>
    rw [session?, Roster.session?, hs.sessions]
    rfl
  | @opened who _ _ _ _ =>
    have hne : who.uuid ≠ other := fun hu => hcall (congrArg some hu)
    rw [session?_eq_some, session?_eq_some]
    show Keyed.find? token (s.authority.roster.openSession _ who.uuid clock).sessions = _ ∧ _ ↔ _
    rw [Roster.find?_openSession h.ordered]
    constructor
    · intro hsome
      rcases hsome with ⟨⟨_, rfl⟩ | ⟨_, hfind, _⟩, hid⟩
      · exact absurd hid hne
      · exact ⟨hfind, hid⟩
    · intro hsome
      obtain ⟨hfind, rfl⟩ := hsome
      refine ⟨Or.inr ⟨fun ht => ?_, hfind, hne.symm⟩, rfl⟩
      rw [← ht, hfresh] at hfind
      cases hfind
  | closed hd =>
    rw [session?_closed h hd]
    exact and_iff_left fun hsame => hcall (congrArg some hsame.1)
  | expired _ hd _ =>
    rw [session?_closed h hd]
    exact and_iff_left fun hsame => hcall (congrArg some hsame.1)

/-! ## The tree -/

theorem root_register (s : Server) (who : Greeting) :
    (s.register who).1.mesh.root = s.mesh.root := by
  have henroll := enroll_root s who.uuid who.hostname
  rcases register_cases s who with he | he | he
  · rw [he]
  · rw [he, henroll]
  · rw [he]
    exact henroll

theorem mesh_hello (s : Server) (who : Greeting) (clock : Int) :
    (s.hello who clock).1.mesh = s.mesh := by
  rcases hello_cases s who clock with he | ⟨_, _, he⟩ <;> rw [he]

theorem mesh_goodbye (s : Server) (who : Credentials) : (s.goodbye who).1.mesh = s.mesh := by
  rcases goodbye_cases s who with he | ⟨_, _, he⟩ <;> rw [he]

/-- An update changes the tree by a merge of the caller's snapshot, if it does. -/
theorem mesh_update (s : Server) (what : Delivery) (clock now : Int) :
    (s.update what clock now).1.mesh = s.mesh ∨
      ∃ node, node.uuid = what.uuid ∧
        (s.update what clock now).1.mesh = s.mesh.run (.merge node clock) := by
  rcases update_cases s what clock now with ⟨_, hu⟩ | ⟨_, _, ⟨_, hu⟩ | ⟨_, hu⟩⟩
  · rw [hu]
    exact Or.inl rfl
  · rw [hu]
    exact Or.inl rfl
  · rw [hu]
    exact deliver_mesh s what clock

theorem root_handleAt (s : Server) (c : Call) (clock now : Int) :
    (s.handleAt c clock now).1.mesh.root = s.mesh.root ∨
      ∃ node, c.caller? = some node.uuid ∧
        (s.handleAt c clock now).1.mesh.root = (s.mesh.root.merge node clock).1 := by
  rw [handleAt]
  split
  · exact Or.inl rfl
  · cases c with
    | getCertificate => exact Or.inl rfl
    | register who => exact Or.inl (root_register s who)
    | getSignature who => exact Or.inl rfl
    | hello who => exact Or.inl (congrArg Mesh.root (mesh_hello s who clock))
    | goodbye who => exact Or.inl (congrArg Mesh.root (mesh_goodbye s who))
    | update what =>
      rcases mesh_update s what clock now with he | ⟨node, hid, he⟩
      · exact Or.inl (congrArg Mesh.root he)
      · refine Or.inr ⟨node, congrArg some hid.symm, ?_⟩
        exact (congrArg Mesh.root he).trans (Mesh.run_root _ _)

theorem coherent_step (h : s.mesh.root.Coherent) (input : Input) :
    (s.step input).1.mesh.root.Coherent := by
  cases input with
  | call c clock now =>
    rcases root_handleAt s c clock now with he | ⟨node, _, he⟩
    · exact he ▸ h
    · exact he ▸ Node.coherent_merge h node clock
  | allow uuid => exact h
  | disk ledger => exact h
  | change change => exact Mesh.coherent_run h change
  | revoke uuid =>
    show (s.revoke uuid).1.mesh.root.Coherent
    rw [revoke]
    split
    · exact h
    · dsimp only
      split
      · exact Mesh.coherent_run h _
      · exact h

end Server

theorem Run.coherent (h : Run past s) (hmesh : (origin past s).mesh.Reachable) :
    s.mesh.root.Coherent := by
  induction h with
  | start h mesh autoAccept attached => exact hmesh.coherent
  | step h input ih => exact Server.coherent_step (ih hmesh) input

/-- A call leaves every machine but its caller as it was, if the next token is none
that is in use. -/
theorem Run.isolated (h : Run past s) (hmesh : (origin past s).mesh.Reachable)
    (hfresh : Keyed.find? (s.authority.mint s.authority.minted) s.authority.roster.sessions = none)
    (hcall : c.caller? ≠ some other) (clock now : Int) :
    Untouched s (s.handleAt c clock now).1 other := by
  obtain ⟨hwaiting, hallowed⟩ := Server.find?_lists_handleAt h.sound hcall clock now
  refine ⟨hwaiting, hallowed, Server.session?_handleAt h.held hfresh hcall clock now, ?_⟩
  rcases Server.root_handleAt s c clock now with he | ⟨node, hcaller, he⟩
  · rw [he]
  · rw [he]
    exact Node.own?_merge_of_ne (h.coherent hmesh) clock fun hu => hcall (hu ▸ hcaller)

/-- Two machines have sessions, and the one of them is a child of the root. -/
def neighbours : List Moment × Server :=
  continued greetedPast greetedServer
    [.change (.merge (Node.machine "u" []) 1005),
      .call (.register ⟨"host", "v", []⟩) 1006 1006, .allow "v",
      .call (.hello ⟨"host", "v", [1]⟩) 1010 1010]

/-- The other machine reports that the first one is below it. -/
def claimingCall : Call :=
  .update ⟨"v", "kk", "\x7b\"uuid\":\"v\",\"local_host\":\x7b\"name\":\"\"\x7d," ++
    "\"children\":\x7b\"u\":\x7b\"uuid\":\"u\",\"local_host\":\x7b\"name\":\"\"\x7d\x7d\x7d\x7d"⟩

theorem neighbours_isolated :
    Run neighbours.1 neighbours.2 ∧ (origin neighbours.1 neighbours.2).mesh.Reachable ∧
      Keyed.find? (neighbours.2.authority.mint neighbours.2.authority.minted)
        neighbours.2.authority.roster.sessions = none ∧
      claimingCall.caller? ≠ some "u" ∧
      (neighbours.2.handleAt claimingCall 1020 1020).2 = .ok .ack ∧
      Untouched neighbours.2 (neighbours.2.handleAt claimingCall 1020 1020).1 "u" := by
  have hrun : Run neighbours.1 neighbours.2 := greeted_run.continued _
  have hmesh : (origin neighbours.1 neighbours.2).mesh.Reachable := .new "r" "root" "" 0 60
  have hfresh : Keyed.find? (neighbours.2.authority.mint neighbours.2.authority.minted)
      neighbours.2.authority.roster.sessions = none := by decide
  have hcall : claimingCall.caller? ≠ some "u" := by decide
  refine ⟨hrun, hmesh, hfresh, hcall, ?_, hrun.isolated hmesh hfresh hcall 1020 1020⟩
  decide +kernel

end Push
end FleetMesh
