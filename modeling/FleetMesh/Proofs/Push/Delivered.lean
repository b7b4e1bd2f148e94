/-
What a delivery brings.

A machine sends the text of its node and its children, and the other side reads it,
normalizes it and merges it.  For a server that has a session of the machine this ends
in the server's tree with what the machine told (`Run.snapshot_delivered`): its tree is
settled, so that the text is read back as it is told, and its children have nothing
below them, so that the search for duplicates looks at nothing but them.

What is told is not always what the machine has.  Free-form content that is a bare
`null` arrives as none (`bareNull_lost`).
-/
import FleetMesh.Proofs.Duplicates.Shallow
import FleetMesh.Proofs.Push.Isolation
import FleetMesh.Proofs.Relay
import FleetMesh.Push.Client

namespace FleetMesh
namespace Push

open Json (Doc)

variable {s t : Server} {past : List Moment} {input : Input} {answer : Answer}
  {token uuid : String} {e : Session}

/-! ## Calls in order -/

theorem valid_delivery {what : Delivery} (hid : isValidUuid what.uuid = true)
    (htoken : what.token ≠ "") (hnode : what.node ≠ "") :
    (Call.update what).validate = .ok () := by
  rw [Call.validate, checkUuid_eq_ok.mpr hid, checkToken, if_neg htoken, if_neg hnode]
  rfl

/-! ## The identifiers of sessions -/

/-- A session that was not there before was opened by a hello. -/
theorem session_effect (h : Held s) (he : Effect s input answer t)
    (hfind : Keyed.find? token t.authority.roster.sessions = some e) :
    Keyed.find? token s.authority.roster.sessions = some e ∨
      ∃ who clock now given, input = .call (.hello who) clock now ∧
        answer = some (.ok (.token given)) ∧ e.uuid = who.uuid := by
  cases he with
  | spared hs _ => exact Or.inl (hs.sessions ▸ hfind)
  | @opened who clock now _ _ =>
    rcases (Roster.find?_openSession h.ordered clock).mp hfind with ⟨_, rfl⟩ | ⟨_, hfind, _⟩
    · exact Or.inr ⟨who, clock, now, _, rfl, rfl, rfl⟩
    · exact Or.inl hfind
  | closed _ => exact Or.inl ((Roster.find?_closeSession h.ordered).mp hfind).1
  | expired _ _ _ => exact Or.inl ((Roster.find?_closeSession h.ordered).mp hfind).1
  | dismissed hd =>
    rw [hd.sessions] at hfind
    exact Or.inl ((Roster.find?_dropSessions h.ordered).mp hfind).1

theorem Run.valid_session (h : Run past s)
    (hfind : Keyed.find? token s.authority.roster.sessions = some e) :
    isValidUuid e.uuid = true := by
  induction h with
  | start h mesh autoAccept attached =>
    rw [(start_roster h).2] at hfind
    cases hfind
  | @step past s h input ih =>
    rcases session_effect h.held (Server.step_effect s input) hfind with
      hfind | ⟨who, clock, now, given, rfl, hanswer, hid⟩
    · exact ih hfind
    · rw [hid]
      exact Call.valid_caller rfl (Server.valid_of_answer (Option.some.inj hanswer))

/-! ## Deliveries -/

theorem update_deposits {what : Delivery} {clock now : Int} {node : Node}
    (he : s.session? what.uuid what.token = some e)
    (hfresh : Clock.sub now (s.lastSeen what.uuid e) ≤ sessionLifetime)
    (hnode : Node.ofText clock what.node 0 = .ok node) (hid : node.uuid = what.uuid) :
    s.update what clock now = s.deposit node clock := by
  have hdeliver : s.deliver what clock = s.deposit node clock := by
    rw [Server.deliver, hnode]
    exact if_neg (not_not_intro hid)
  rcases s.update_cases what clock now with ⟨hnone, _⟩ | ⟨d, hd, ⟨hold, _⟩ | ⟨_, hu⟩⟩
  · rw [he] at hnone
    cases hnone
  · obtain rfl := Option.some.inj (he.symm.trans hd)
    exact absurd hfresh (Int.not_le.mpr hold)
  · exact hu.trans hdeliver

theorem deposit_root (s : Server) {node : Node} (hid : node.uuid ≠ "")
    (hne : node.uuid ≠ s.mesh.root.uuid) (clock : Int) :
    (s.deposit node clock).1.mesh.root = Node.merged s.mesh.root node clock := by
  obtain ⟨events, he⟩ := Node.merge_eq hid hne clock
  have hroot : (s.deposit node clock).1.mesh.root = (s.mesh.root.merge node clock).1 :=
    Mesh.run_root s.mesh (.merge node clock)
  rw [hroot, he]

theorem told_snapshot_uuid (client : Mesh) :
    (client.snapshot 1).told.uuid = client.root.uuid :=
  (Node.told_uuid _).trans (Node.truncate_uuid 1 client.root)

/-- What is told of a machine's node and its children is stored as it is, if it is stored. -/
theorem find?_deposit_told {Q : Reading → Prop} {client : Mesh} (hc : client.Takes Q)
    (hs : s.mesh.root.Coherent) (hid : client.root.uuid ≠ "")
    (hne : client.root.uuid ≠ s.mesh.root.uuid) (clock : Int) :
    Keyed.find? client.root.uuid
        (s.deposit (client.snapshot 1).told clock).1.mesh.root.children =
      some (Node.arrived s.mesh.root (client.snapshot 1).told clock) := by
  obtain ⟨hsettled, _⟩ := hc.snapshot 1
  have huuid := told_snapshot_uuid client
  obtain ⟨_, hbelow, hfiled⟩ := Mesh.reachable_identifiers hc.reachable
  have hchild : ∀ e ∈ (client.snapshot 1).told.children,
      e.2.children = [] ∧ e.1 ≠ client.root.uuid := by
    intro e he
    rw [Node.told_eq] at he
    obtain ⟨c, hc, rfl⟩ := List.mem_map.mp he
    obtain ⟨hleaf, d, hd, hkey⟩ := Node.mem_truncate_one hc
    refine ⟨?_, ?_⟩
    · rw [Node.told_eq, hleaf]
      rfl
    · rw [hkey, ((hfiled client.root (Node.mem_subtree.mpr (Or.inl rfl))).2 d hd).1]
      exact hbelow d hd d.2 (Node.mem_subtree.mpr (Or.inl rfl))
  rw [← huuid] at hid hne hchild ⊢
  rw [deposit_root s hid hne]
  exact Node.find?_merged_shallow hs hid hne hsettled.told.settle rfl
    (fun e he => (hchild e he).2) (fun e he => (hchild e he).1) clock

/-- What a delivery does: the snapshot is taken, and under the machine's identifier then
stands the machine's own snapshot as its text tells it, dated by the server, without the
children that have a place in the server's tree already, and down if it was down before.
The text tells all but the probes out of service and content that is a bare `null`. -/
structure Delivers (s : Server) (client : Mesh) (clock : Int)
    (after : Server × Except Failure Reply) : Prop where
  taken : after.2 = .ok .ack
  stored : Keyed.find? client.root.uuid after.1.mesh.root.children =
    some (Node.arrived s.mesh.root (client.snapshot 1).told clock)
  whole : (client.snapshot 1).Everywhere Node.Stated →
    (∀ e ∈ (client.snapshot 1).children, e.2.disabled = []) →
      Node.arrived s.mesh.root (client.snapshot 1).told clock =
        Node.arrived s.mesh.root (client.snapshot 1) clock
  status : s.mesh.root.alive? client.root.uuid ≠ some false →
    (∀ e ∈ (client.snapshot 1).children,
      s.mesh.root.outranks client.root.uuid e.2.uuid = false) →
      (Node.arrived s.mesh.root (client.snapshot 1).told clock).globalStatus =
        (client.snapshot 1).globalStatus

/-- Nothing is lost where a text says all of the readings, and nothing below the machine is
out of service. -/
theorem arrived_told {client : Mesh} (n : Node)
    (hstated : (client.snapshot 1).Everywhere Node.Stated)
    (henabled : ∀ e ∈ (client.snapshot 1).children, e.2.disabled = []) (clock : Int) :
    Node.arrived n (client.snapshot 1).told clock = Node.arrived n (client.snapshot 1) clock := by
  have hnothing : Node.Everywhere (fun m => m.disabled = [])
      { client.snapshot 1 with disabled := [] } := by
    refine Node.everywhere_iff.mpr ⟨rfl, fun e he => Node.everywhere_iff.mpr ⟨henabled e he, ?_⟩⟩
    rw [(Node.mem_truncate_one he).1]
    exact fun _ hd => absurd hd List.not_mem_nil
  have htold : (client.snapshot 1).told = { client.snapshot 1 with disabled := [] } := by
    rw [← Node.told_disabled (client.snapshot 1) []]
    exact Node.told_eq_self (hstated.root (Node.everywhere_iff.mp hstated).1 rfl) hnothing
  rw [htold]
  rfl

theorem delivery?_eq_some {client : Mesh} {what : Delivery} :
    Client.delivery? client.root token = some what ↔
      (client.snapshot 1).isDated = true ∧
        ⟨client.root.uuid, token, (client.snapshot 1).toText⟩ = what := by
  rw [Client.delivery?, Option.map_eq_some_iff]
  constructor
  · rintro ⟨text, htext, hwhat⟩
    obtain ⟨hdated, rfl⟩ := Node.text?_eq_some.mp htext
    exact ⟨hdated, hwhat⟩
  · rintro ⟨hdated, hwhat⟩
    exact ⟨_, Node.text?_eq_some.mpr ⟨hdated, rfl⟩, hwhat⟩

/-- Within a good session the update that a machine makes is answered by storing what the
machine's snapshot tells, if that has no floats and is not too deep. -/
theorem Run.delivery_deposits (h : Run past s) (hmint : ∀ i, s.authority.mint i ≠ "")
    {client : Mesh} (hc : client.Takes Reading.Sized) {what : Delivery}
    (hwhat : Client.delivery? client.root token = some what)
    (hfree : (client.snapshot 1).Everywhere Node.FloatFree)
    (hnesting : (client.snapshot 1).toValue.nesting ≤ Doc.nestingLimit)
    (he : s.session? client.root.uuid token = some e) (clock : Int) {now : Int}
    (hfresh : Clock.sub now (s.lastSeen client.root.uuid e) ≤ sessionLifetime) :
    client.root.uuid ≠ "" ∧
      s.handleAt (.update what) clock now = s.deposit (client.snapshot 1).told clock := by
  obtain ⟨hdated, rfl⟩ := delivery?_eq_some.mp hwhat
  obtain ⟨hfind, huuid⟩ := session?_eq_some.mp he
  obtain ⟨i, _, hi⟩ := h.held.minted token e hfind
  obtain ⟨hsettled, hsized⟩ := hc.snapshot 1
  have hwritable := Node.writable_of_isDated hsized hdated
  have hread : Node.ofText clock (client.snapshot 1).toText 0 = .ok (client.snapshot 1).told :=
    Node.ofText_toText_of_settled hsettled hwritable hfree hnesting clock
  have htext : (client.snapshot 1).toText ≠ "" := by
    intro hempty
    rw [hempty] at hread
    cases hread
  have hcaller : isValidUuid client.root.uuid = true := huuid ▸ h.valid_session hfind
  have htoken : token ≠ "" := hi ▸ hmint i
  have hvalid : (Call.update ⟨client.root.uuid, token, (client.snapshot 1).toText⟩).validate
      = .ok () := valid_delivery hcaller htoken htext
  refine ⟨uuid_of_valid hvalid, ?_⟩
  rw [Server.handleAt_of_valid hvalid, Server.perform]
  exact update_deposits he hfresh hread (told_snapshot_uuid client)

/-- Within a good session the update that a machine makes delivers what the machine tells. -/
theorem Run.snapshot_delivered (h : Run past s) (hmesh : (origin past s).mesh.Reachable)
    (hmint : ∀ i, s.authority.mint i ≠ "") {client : Mesh} (hc : client.Takes Reading.Sized)
    {what : Delivery} (hwhat : Client.delivery? client.root token = some what)
    (hfree : (client.snapshot 1).Everywhere Node.FloatFree)
    (hnesting : (client.snapshot 1).toValue.nesting ≤ Doc.nestingLimit)
    (he : s.session? client.root.uuid token = some e) (clock : Int) {now : Int}
    (hfresh : Clock.sub now (s.lastSeen client.root.uuid e) ≤ sessionLifetime)
    (hne : client.root.uuid ≠ s.mesh.root.uuid) :
    Delivers s client clock (s.handleAt (.update what) clock now) := by
  obtain ⟨hid, hupdate⟩ := h.delivery_deposits hmint hc hwhat hfree hnesting he clock hfresh
  have htold := told_snapshot_uuid client
  rw [hupdate]
  refine ⟨(deposit_ack s _ clock).mpr ?_, ?_, fun hstated henabled => ?_, fun hup hkept => ?_⟩
  · rw [htold]
    exact ⟨hid, hne⟩
  · exact find?_deposit_told hc (h.coherent hmesh) hid hne clock
  · exact arrived_told s.mesh.root hstated henabled clock
  · have hkept : ∀ e ∈ (client.snapshot 1).told.children,
        s.mesh.root.outranks (client.snapshot 1).told.uuid e.2.uuid = false := by
      intro e he
      rw [Node.told_eq] at he
      obtain ⟨d, hd, rfl⟩ := List.mem_map.mp he
      rw [htold, Node.told_uuid]
      exact hkept d hd
    rw [Node.arrived_of_kept (hc.snapshot 1).1.told.rolled (htold.symm ▸ hup) hkept]
    exact Node.fair_told.globalStatus_restate (client.snapshot 1)

theorem growingMint_ne (i : Nat) : growingMint i ≠ "" := by
  intro h
  have hlist : List.replicate (i + 1) 'k' = [] := String.ofList_injective h
  cases hlist

/-- A server that finds the machine down, and has another machine that the machine has
below it. -/
def crowded : List Moment × Server :=
  continued greetedPast greetedServer
    [.change (.merge (Node.machine "a" []) 1005), .change (.merge (Node.machine "u" []) 1010),
      .change (.sweep 1200)]

/-- What a machine sends that relays. -/
def relayDelivery : Delivery := ⟨"u", "k", (Mesh.relayMesh.snapshot 1).toText⟩

theorem crowded_delivered :
    Run crowded.1 crowded.2 ∧ (origin crowded.1 crowded.2).mesh.Reachable ∧
      (∀ i, crowded.2.authority.mint i ≠ "") ∧ Mesh.relayMesh.Takes Reading.Sized ∧
      Client.delivery? Mesh.relayMesh.root "k" = some relayDelivery ∧
      (Mesh.relayMesh.snapshot 1).Everywhere Node.FloatFree ∧
      (Mesh.relayMesh.snapshot 1).toValue.nesting ≤ Doc.nestingLimit ∧
      crowded.2.session? Mesh.relayMesh.root.uuid "k" = some ⟨"u", 1000⟩ ∧
      Clock.sub 1300 (crowded.2.lastSeen Mesh.relayMesh.root.uuid ⟨"u", 1000⟩) ≤ sessionLifetime ∧
      Mesh.relayMesh.root.uuid ≠ crowded.2.mesh.root.uuid ∧
      (crowded.2.mesh.root.alive? "u" = some false ∧
        crowded.2.mesh.root.outranks "u" "a" = true ∧
        (Mesh.relayMesh.snapshot 1).children.map Prod.fst = ["a"]) ∧
      Delivers crowded.2 Mesh.relayMesh 1300
        (crowded.2.handleAt (.update relayDelivery) 1300 1300) := by
  have hrun : Run crowded.1 crowded.2 := greeted_run.continued _
  have hmesh : (origin crowded.1 crowded.2).mesh.Reachable := .new "r" "root" "" 0 60
  have hmint : ∀ i, crowded.2.authority.mint i ≠ "" := growingMint_ne
  have hfree : (Mesh.relayMesh.snapshot 1).Everywhere Node.FloatFree := by decide +kernel
  have hnesting : (Mesh.relayMesh.snapshot 1).toValue.nesting ≤ Doc.nestingLimit := by
    decide +kernel
  have hsession : crowded.2.session? Mesh.relayMesh.root.uuid "k" = some ⟨"u", 1000⟩ := by
    decide +kernel
  have hfresh : Clock.sub 1300 (crowded.2.lastSeen Mesh.relayMesh.root.uuid ⟨"u", 1000⟩)
      ≤ sessionLifetime := by
    decide +kernel
  have hne : Mesh.relayMesh.root.uuid ≠ crowded.2.mesh.root.uuid := by decide +kernel
  have htakes : Mesh.relayMesh.Takes Reading.Sized :=
    Mesh.relayMesh_relays.takes.imp fun _ h => h.toSized
  have hwhat : Client.delivery? Mesh.relayMesh.root "k" = some relayDelivery :=
    delivery?_eq_some.mpr
      ⟨Node.isDated_of_writable (Mesh.relayMesh_relays.takes.snapshot 1).2, rfl⟩
  exact ⟨hrun, hmesh, hmint, htakes, hwhat, hfree, hnesting, hsession, hfresh, hne,
    by decide +kernel,
    hrun.snapshot_delivered hmesh hmint htakes hwhat hfree hnesting hsession 1300 hfresh hne⟩

/-- A machine with a reading whose value is a bare `null`. -/
def nullMesh : Mesh :=
  (Mesh.new (Node.new "u" "host" "" 0) 60).run
    (.submit { Reading.plain "load" Status.ok 0 "" (.ofUnix 3) with value := some .null })

theorem nullMesh_takes : nullMesh.Takes Reading.Sized := by
  have hcivil : (Timestamp.ofUnix 3).Civil :=
    (Timestamp.printable_iff.mp (Timestamp.printable_ofUnix (by decide))).1
  refine .run (.new "u" "host" "" (by decide) 60) ⟨by decide, by decide, fun v hv => ?_, hcivil⟩
  obtain rfl := List.mem_singleton.mp hv
  exact ⟨rfl, fun _ hn => absurd hn List.not_mem_nil⟩

/-- What the machine sends. -/
def nullDelivery : Delivery := ⟨"u", "k", (nullMesh.snapshot 1).toText⟩

/-- What the machine told of its reading, within a good session, is not what it has. -/
theorem bareNull_lost :
    Run greetedPast greetedServer ∧ (origin greetedPast greetedServer).mesh.Reachable ∧
      (∀ i, greetedServer.authority.mint i ≠ "") ∧ nullMesh.Takes Reading.Sized ∧
      Client.delivery? nullMesh.root "k" = some nullDelivery ∧
      (nullMesh.snapshot 1).Everywhere Node.FloatFree ∧
      (nullMesh.snapshot 1).toValue.nesting ≤ Doc.nestingLimit ∧
      greetedServer.session? nullMesh.root.uuid "k" = some ⟨"u", 1000⟩ ∧
      Clock.sub 1300 (greetedServer.lastSeen nullMesh.root.uuid ⟨"u", 1000⟩) ≤ sessionLifetime ∧
      nullMesh.root.uuid ≠ greetedServer.mesh.root.uuid ∧
      ((nullMesh.snapshot 1).localHost.reading? "load").map (fun r => r.value.isSome)
        = some true ∧
      (Keyed.find? nullMesh.root.uuid
          (greetedServer.handleAt (.update nullDelivery) 1300 1300).1.mesh.root.children).bind
        (fun stored => (stored.localHost.reading? "load").map (fun r => r.value.isSome))
          = some false := by
  have hwhat : Client.delivery? nullMesh.root "k" = some nullDelivery :=
    delivery?_eq_some.mpr ⟨by decide +kernel, rfl⟩
  have hmesh : (origin greetedPast greetedServer).mesh.Reachable := .new "r" "root" "" 0 60
  have hfree : (nullMesh.snapshot 1).Everywhere Node.FloatFree := by decide +kernel
  have hnesting : (nullMesh.snapshot 1).toValue.nesting ≤ Doc.nestingLimit := by decide +kernel
  have hsession : greetedServer.session? nullMesh.root.uuid "k" = some ⟨"u", 1000⟩ := by
    decide +kernel
  have hfresh : Clock.sub 1300 (greetedServer.lastSeen nullMesh.root.uuid ⟨"u", 1000⟩)
      ≤ sessionLifetime := by decide +kernel
  have hne : nullMesh.root.uuid ≠ greetedServer.mesh.root.uuid := by decide +kernel
  obtain ⟨hid, hupdate⟩ := greeted_run.delivery_deposits growingMint_ne nullMesh_takes hwhat
    hfree hnesting hsession 1300 hfresh
  refine ⟨greeted_run, hmesh, growingMint_ne, nullMesh_takes, hwhat, hfree, hnesting, hsession,
    hfresh, hne, by decide +kernel, ?_⟩
  rw [hupdate, find?_deposit_told nullMesh_takes (greeted_run.coherent hmesh) hid hne]
  decide +kernel

end Push
end FleetMesh
