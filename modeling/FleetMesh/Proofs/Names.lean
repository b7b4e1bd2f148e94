/-
By which names readings are spoken of.

A reading has a name, and it has a key in the table that holds it.  Events name the
probe whose status moved by the key and the alarming probes by the readings, and the
pages list and find readings by the key.  So all speak of the same names where the two
agree.

On the own host they do (`Reachable.selfNamed`).  On any other the table is one that a
merged snapshot had for that machine, and is taken as it is (`brings_after`): the keys
of children are rebuilt, those of readings are not.  So the names agree everywhere if
they do in what was merged (`names_as_merged`), and a text in which they do not makes a
tree in which they do not (`names_differ`).
-/
import FleetMesh.Http.Api
import FleetMesh.Proofs.Liveness.Outage
import FleetMesh.Proofs.Queue.Story
import FleetMesh.Proofs.Relay

namespace FleetMesh

/-! ## One host -/

namespace Host

variable {host : Host}

instance (host : Host) : Decidable host.SelfNamed :=
  inferInstanceAs (Decidable (∀ entry ∈ host.readings, entry.2.name = entry.1))

/-- The keys of the readings at warning or worse. -/
def alarmingKeys (host : Host) : List String :=
  Keyed.keys (host.readings.filter (fun entry => entry.2.isAlarming))

theorem SelfNamed.alarming_eq (h : host.SelfNamed) : host.alarming = host.alarmingKeys := by
  rw [alarming, Keyed.values, List.filter_map, List.map_map]
  exact List.map_congr_left fun entry he => h entry (List.mem_of_mem_filter he)

theorem SelfNamed.keys_eq (h : host.SelfNamed) :
    Keyed.keys host.readings = (Keyed.values host.readings).map Reading.name := by
  rw [Keyed.values, List.map_map]
  exact List.map_congr_left fun entry he => (h entry he).symm

end Host

/-! ## What is told -/

/-- Whether a change of a status is one of the node, or of a reading stored on it. -/
structure StatusChange.TellsOf (change : StatusChange) (n : Node) : Prop where
  hostname : change.hostname = n.hostname
  alarming : change.alarming = n.localHost.alarming
  probe : ∀ name, change.probe = some name →
    ∃ r, n.localHost.reading? name = some r ∧ change.newStatus = r.status

namespace Node

variable {n old new : Node} {change : StatusChange}

theorem tellsOf_diffReadings
    (h : .statusChanged change ∈ diffReadings old.toNodeInfo new.toNodeInfo) :
    change.TellsOf new := by
  rcases List.mem_append.mp h with h | h
  · obtain ⟨e, _, h⟩ := List.mem_flatMap.mp h
    dsimp only at h
    split at h
    · rename_i latest hlatest
      obtain ⟨-, h⟩ := List.mem_ite_nil_left.mp h
      obtain rfl := Event.statusChanged.inj (List.mem_singleton.mp h)
      refine ⟨rfl, rfl, fun name hname => ⟨latest, ?_, rfl⟩⟩
      rwa [← Option.some.inj hname]
    · obtain ⟨-, h⟩ := List.mem_ite_nil_right.mp h
      cases List.mem_singleton.mp h
  · obtain ⟨-, h⟩ := List.mem_ite_nil_right.mp h
    obtain ⟨e, _, h⟩ := List.mem_flatMap.mp h
    obtain ⟨-, h⟩ := List.mem_ite_nil_left.mp h
    cases List.mem_singleton.mp h

theorem tellsOf_diffStatus (h : .statusChanged change ∈ diffStatus old.toNodeInfo new.toNodeInfo) :
    change.TellsOf new := by
  obtain ⟨-, h⟩ := List.mem_ite_nil_left.mp h
  obtain rfl := Event.statusChanged.inj (List.mem_singleton.mp h)
  exact ⟨rfl, rfl, nofun⟩

/-- Every change of a status is one of a node of the newer snapshot. -/
theorem tellsOf_diff (h : .statusChanged change ∈ diff old new) :
    ∃ m ∈ new.subtree, change.TellsOf m := by
  -- by induction on the older snapshot, whose children say which pairs are compared
  induction old using induct generalizing new with
  | step old ih =>
    have htop : new ∈ new.subtree := mem_subtree.mpr (Or.inl rfl)
    have hbelow : .statusChanged change ∈ diffReadings old.toNodeInfo new.toNodeInfo
        ++ diffChildren old.children new.children → ∃ m ∈ new.subtree, change.TellsOf m := by
      intro h
      rcases List.mem_append.mp h with h | h
      · exact ⟨new, htop, tellsOf_diffReadings h⟩
      · obtain ⟨e, he, latest, hfind, h⟩ := mem_diffChildren.mp h
        obtain ⟨m, hm, htells⟩ := ih e he h
        exact ⟨m, mem_subtree.mpr (Or.inr ⟨_, Keyed.mem_of_find? hfind, hm⟩), htells⟩
    rw [diff_eq] at h
    dsimp only at h
    split at h
    · cases List.mem_singleton.mp h
    · split at h
      · exact hbelow ((List.mem_cons.mp h).resolve_left nofun)
      · split at h
        · exact ⟨new, htop, tellsOf_diffStatus h⟩
        · exact hbelow h

theorem tellsOf_submit {r : Reading} (h : .statusChanged change ∈ (n.submit r).2) :
    change.TellsOf (n.submit r).1 := by
  have hname : (n.submit r).1.hostname = n.hostname :=
    congrArg (fun info => info.hostname) (rollup_own { n with localHost := n.localHost.store r })
  have hhost : (n.submit r).1.localHost = n.localHost.store r :=
    congrArg (fun info => info.localHost) (rollup_own { n with localHost := n.localHost.store r })
  simp only [submit] at h
  split at h
  · cases List.mem_singleton.mp h
  · obtain ⟨-, h⟩ := List.mem_ite_nil_left.mp h
    obtain rfl := Event.statusChanged.inj (List.mem_singleton.mp h)
    refine ⟨hname.symm, congrArg Host.alarming hhost.symm, fun name he => ⟨r, ?_, rfl⟩⟩
    rw [hhost, Host.reading?_store, if_pos (Option.some.inj he)]

/-- What a change tells of statuses it tells of nodes of the tree that it leaves. -/
theorem tellsOf_apply {timeout : Int} {c : Change}
    (h : .statusChanged change ∈ (c.apply timeout n).2) :
    ∃ m ∈ (c.apply timeout n).1.subtree, change.TellsOf m := by
  cases c with
  | merge incoming now =>
    dsimp only [Change.apply] at h ⊢
    by_cases hrefused : incoming.uuid = "" ∨ incoming.uuid = n.uuid
    · rw [merge_of_refused hrefused] at h
      exact absurd h List.not_mem_nil
    obtain ⟨hid, hne⟩ := not_or.mp hrefused
    rw [merge_changed hid hne] at h ⊢
    dsimp only [Merged.events, changed] at h ⊢
    split at h
    · rename_i latest _ hlatest
      obtain ⟨m, hm, htells⟩ := tellsOf_diff h
      exact ⟨m, mem_subtree.mpr (Or.inr ⟨_, Keyed.mem_of_find? hlatest, hm⟩), htells⟩
    · exact absurd h List.not_mem_nil
  | submit r => exact ⟨_, mem_subtree.mpr (Or.inl rfl), tellsOf_submit h⟩
  | dropReading name =>
    dsimp only [Change.apply, dropReading] at h
    split at h
    · exact absurd h List.not_mem_nil
    · cases List.mem_singleton.mp h
  | disable name => exact absurd h List.not_mem_nil
  | sweep now =>
    obtain ⟨uuid, up, hturn⟩ := turn_of_sweep h
    cases hturn
  | dropChild uuid => exact absurd h List.not_mem_nil

end Node

/-! ## What is brought -/

namespace Change

/-- Whether a change brings the node's table of readings, as that of the same machine. -/
def Brings (c : Change) (n : Node) : Prop :=
  match c with
  | .merge incoming _ =>
    ∃ s ∈ incoming.subtree, s.uuid = n.uuid ∧ s.localHost.readings = n.localHost.readings
  | _ => False

/-- Whether a change brings only readings that are stored under their own names. -/
def SelfNamed : Change → Prop
  | .merge incoming _ => incoming.Everywhere (fun s => s.localHost.SelfNamed)
  | _ => True

/-- What is brought of such readings is stored so. -/
theorem SelfNamed.brings {c : Change} (h : c.SelfNamed) {n : Node} (hn : c.Brings n) :
    n.localHost.SelfNamed := by
  cases c with
  | merge incoming now =>
    obtain ⟨s, hs, -, hreadings⟩ := hn
    rw [Host.SelfNamed, ← hreadings]
    exact h s hs
  | _ => exact hn.elim

end Change

namespace Node

variable {n : Node} {home : String} {changes : List Change}

/-- The machine itself, or one whose table of readings one of the changes brought. -/
def Brought (home : String) (changes : List Change) (n : Node) : Prop :=
  n.uuid = home ∨ ∃ c ∈ changes, c.Brings n

theorem steady_brought (home : String) (changes : List Change) :
    Steady (Brought home changes) := by
  intro m' m h hm
  refine hm.imp h.uuid.trans fun ⟨c, hc, hbrings⟩ => ⟨c, hc, ?_⟩
  cases c with
  | merge incoming now =>
    obtain ⟨s, hs, huuid, hreadings⟩ := hbrings
    exact ⟨s, hs, huuid.trans h.uuid.symm, hreadings.trans h.readings.symm⟩
  | _ => exact hbrings

theorem Brought.concat (h : n.Brought home changes) (c : Change) : n.Brought home (changes ++ [c]) :=
  h.imp_right fun ⟨d, hd, hbrings⟩ => ⟨d, List.mem_append_left _ hd, hbrings⟩

/-- A change makes no tables but the machine's own and those it brings. -/
theorem brought_apply (h : n.Everywhere (Brought n.uuid changes)) (timeout : Int) (c : Change) :
    (c.apply timeout n).1.Everywhere (Brought n.uuid (changes ++ [c])) := by
  have hsteady := steady_brought n.uuid (changes ++ [c])
  have hbefore : n.Everywhere (Brought n.uuid (changes ++ [c])) := fun m hm => (h m hm).concat c
  cases c with
  | merge incoming now =>
    have hincoming : incoming.Everywhere (Brought n.uuid (changes ++ [.merge incoming now])) :=
      fun s hs => Or.inr ⟨_, List.mem_concat_self, s, hs, rfl, rfl⟩
    have hs := hincoming.normalize hsteady
    exact hbefore.merge hsteady.flagless hs (everywhere_iff.mp hs).1
  | submit r => exact Everywhere.rollup hsteady.stable (hbefore.root (Or.inl rfl) rfl)
  | dropReading name =>
    dsimp only [Change.apply, dropReading]
    split
    · exact hbefore
    · exact Everywhere.rollup hsteady.stable (hbefore.root (Or.inl rfl) rfl)
  | disable name => exact hbefore.root (Or.inl rfl) rfl
  | sweep now => exact hbefore.sweep hsteady.flagless now timeout
  | dropChild uuid => exact hbefore.dropChild hsteady.flagless uuid

end Node

/-! ## Meshes -/

namespace Mesh

open Http (Api Response)

variable {m : Mesh} {changes : List Change}

theorem brought_after (hleaf : m.root.children = []) (changes : List Change) :
    (m.after changes).root.Everywhere (Node.Brought (m.after changes).root.uuid changes) := by
  induction changes using List.reverseRecOn with
  | nil =>
    intro n hn
    rcases Node.mem_subtree.mp hn with rfl | ⟨e, he, _⟩
    · exact Or.inl rfl
    · exact absurd (hleaf ▸ he) List.not_mem_nil
  | append_singleton changes c ih =>
    rw [after_concat, run_root, Node.uuid_apply]
    exact Node.brought_apply ih _ c

/-- Of every other machine than the own one of the changes brought the table. -/
theorem brings_after (h : m.Reachable) (hleaf : m.root.children = []) (changes : List Change) :
    ∀ e ∈ (m.after changes).root.children, ∀ n ∈ e.2.subtree, ∃ c ∈ changes, c.Brings n := by
  intro e he n hn
  have hbrought := brought_after hleaf changes n (Node.mem_subtree.mpr (Or.inr ⟨e, he, hn⟩))
  exact hbrought.resolve_left ((reachable_identifiers (h.after changes)).2.1 e he n hn)

theorem selfNamed_after (h : m.Reachable) (hleaf : m.root.children = [])
    (hchanges : ∀ c ∈ changes, c.SelfNamed) :
    ∀ n ∈ (m.after changes).root.subtree, n.localHost.SelfNamed := by
  intro n hn
  rcases Node.mem_subtree.mp hn with rfl | ⟨e, he, hn⟩
  · exact (h.after changes).selfNamed
  · obtain ⟨c, hc, hbrings⟩ := brings_after h hleaf changes e he n hn
    exact (hchanges c hc).brings hbrings

/-- That readings are spoken of by one name: the one that they have is the one that they are
stored under, listed and found by, and told by. -/
structure OneNamed (m : Mesh) : Prop where
  stored : ∀ n ∈ m.root.subtree, n.localHost.SelfNamed
  alarming : ∀ n ∈ m.root.subtree, n.localHost.alarming = n.localHost.alarmingKeys
  /-- Also of what the next change tells. -/
  told : ∀ c : Change, c.SelfNamed → ∀ change,
    .statusChanged change ∈ (c.apply m.timeout m.root).2 → ∃ n ∈ (m.run c).root.subtree,
      change.hostname = n.hostname ∧ change.alarming = n.localHost.alarmingKeys ∧
        ∀ name, change.probe = some name → ∃ r, n.localHost.reading? name = some r ∧
          r.name = name ∧ change.newStatus = r.status
  listed : ∀ hostname query, Api.view m.root query (.probes hostname) =
    .found ((m.root.findByHostname hostname).map fun n =>
      .strings ((Keyed.values n.localHost.readings).map Reading.name))
  found : ∀ hostname name r, Api.view.reading? m.root hostname name = some r → r.name = name

theorem oneNamed_of_stored (h : ∀ n ∈ m.root.subtree, n.localHost.SelfNamed)
    (hnext : ∀ c : Change, c.SelfNamed → ∀ n ∈ (m.run c).root.subtree, n.localHost.SelfNamed) :
    m.OneNamed where
  stored := h
  alarming := fun n hn => (h n hn).alarming_eq
  told := fun c hc change hchange => by
    obtain ⟨n, hn, hname, halarming, hprobe⟩ := Node.tellsOf_apply hchange
    rw [← run_root] at hn
    have hself := hnext c hc n hn
    refine ⟨n, hn, hname, halarming.trans hself.alarming_eq, fun name he => ?_⟩
    obtain ⟨r, hr, hstatus⟩ := hprobe name he
    exact ⟨r, hr, hself.name_of_reading? hr, hstatus⟩
  listed := fun hostname query => by
    refine congrArg Response.found (Option.map_congr fun n hn => ?_)
    exact congrArg Json.Value.strings (h n (List.mem_of_find?_eq_some hn)).keys_eq
  found := fun hostname name r hr => by
    obtain ⟨n, hn, hr⟩ := Option.bind_eq_some_iff.mp hr
    exact (h n (List.mem_of_find?_eq_some hn)).name_of_reading? hr

/-- After any changes the own readings are stored under their names, and every other machine
has a table that a merged snapshot had for it.  So if readings had one name in what was merged,
they have one name. -/
theorem names_as_merged (uuid hostname group : String) (now timeout : Int)
    (changes : List Change) :
    let m := (Mesh.new (Node.new uuid hostname group now) timeout).after changes
    m.root.localHost.SelfNamed ∧
      (∀ e ∈ m.root.children, ∀ n ∈ e.2.subtree, ∃ c ∈ changes, c.Brings n) ∧
      ((∀ c ∈ changes, c.SelfNamed) → m.OneNamed) := by
  have hnew := Reachable.new uuid hostname group now timeout
  have hleaf : (Mesh.new (Node.new uuid hostname group now) timeout).root.children = [] := rfl
  refine ⟨(hnew.after changes).selfNamed, brings_after hnew hleaf changes, fun hchanges => ?_⟩
  refine oneNamed_of_stored (selfNamed_after hnew hleaf hchanges) fun c hc => ?_
  rw [← after_concat]
  exact selfNamed_after hnew hleaf (List.forall_mem_append.mpr
    ⟨hchanges, List.forall_mem_singleton.mpr hc⟩)

/-- A machine reports a probe, and another probe runs on the own host. -/
def namedRun : List Change :=
  [.merge (probed [("load", Status.ok)]) 1, .submit (.plain "disk" Status.warning 0 "" (.ofUnix 2))]

theorem namedRun_oneNamed :
    let m := (Mesh.new (Node.new "r" "root" "" 0) 60).after namedRun
    (∀ c ∈ namedRun, c.SelfNamed) ∧ m.OneNamed ∧ m.root.localHost.alarming = ["disk"] := by
  have hload : (Change.merge (probed [("load", Status.ok)]) 1).SelfNamed :=
    (by decide : (probed [("load", Status.ok)]).Everywhere (fun s => s.localHost.SelfNamed))
  have hnamed : ∀ c ∈ namedRun, c.SelfNamed :=
    List.forall_mem_cons.mpr ⟨hload, List.forall_mem_singleton.mpr trivial⟩
  exact ⟨hnamed, (names_as_merged "r" "root" "" 0 60 namedRun).2.2 hnamed, by decide⟩

/-- A snapshot with a probe that is stored under another name than its own. -/
def misnamedSnapshot : Node :=
  Node.settle 0
    ⟨⟨"a", "", "web-1", true, 0, "",
      ⟨"web-1", "", 0, [("load", .plain "disk" Status.error 0 "" (.ofUnix 0))]⟩, 0, []⟩, []⟩

theorem read_misnamedSnapshot :
    Node.ofText 5 misnamedSnapshot.toText 0 = .ok misnamedSnapshot := by
  have hportable : (Reading.plain "disk" Status.error 0 "" (.ofUnix 0)).Portable :=
    ⟨by decide, by decide, fun _ hv => absurd hv List.not_mem_nil,
      Timestamp.printable_ofUnix (by decide)⟩
  have hfree : (Reading.plain "disk" Status.error 0 "" (.ofUnix 0)).FloatFree :=
    fun _ hv => absurd hv List.not_mem_nil
  refine Node.read_settle_leaf ?_ ?_ ?_ ?_ (by decide +kernel) 5
  · rfl
  · exact ⟨List.pairwise_singleton _ _, List.forall_mem_singleton.mpr hportable, by decide⟩
  · rfl
  · exact List.forall_mem_singleton.mpr hfree

/-- A machine that merged the snapshot. -/
def misnamedMesh : Mesh :=
  (Mesh.new (Node.new "r" "root" "" 0) 60).run (.merge misnamedSnapshot 7)

theorem misnamedMesh_relays : misnamedMesh.Relays :=
  .run (.new "r" "root" "" (by decide) 60)
    ⟨by decide, 5, by decide, .text read_misnamedSnapshot⟩

/-- Of a probe under another name its page lists the one and the alarms the other. -/
theorem names_differ :
    misnamedMesh.Relays ∧
      Api.view misnamedMesh.root "" (.probes "web-1") = .json (.strings ["load"]) ∧
      (misnamedMesh.root.findByHostname "web-1").map (fun n => n.localHost.alarming) =
        some ["disk"] ∧
      ¬ ∀ m : Mesh, m.Relays → ∀ n ∈ m.root.subtree, n.localHost.SelfNamed := by
  refine ⟨misnamedMesh_relays, rfl, by decide, fun h => ?_⟩
  have hnot : ¬ ∀ n ∈ misnamedMesh.root.subtree, n.localHost.SelfNamed := by decide
  exact hnot (h misnamedMesh misnamedMesh_relays)

end Mesh
end FleetMesh
