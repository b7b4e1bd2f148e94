/-
What a mesh can serve.

A mesh takes readings of a kind if all that were stored in it are of that kind, those of
the snapshots too that were merged into it, and then all that it holds are
(`Takes.snapshot`).

A mesh relays if what was merged into it was read from texts, and what was stored on
its own host came from runs of probes.  It takes writable readings only
(`Relays.takes`), and the text of a snapshot of it is read by any other machine as
long as no more containers are open in it at once than may be
(`snapshot_text_readable`).

That is not so for every snapshot: what is merged stands two containers deeper in
the tree than in its own text, and so a snapshot that could just be read makes one
that cannot (`deep_snapshot_unreadable`).
-/
import FleetMesh.Probe.Report
import FleetMesh.Proofs.Duplicates.Repeat
import FleetMesh.Proofs.Tree.Apply
import FleetMesh.Proofs.Tree.Reread

namespace FleetMesh

open Json (Checks Doc Value)
open Timestamp (InYears)

/-! ## Runs of probes -/

namespace Probe

/-- The code of a program that ends by itself has 32 bits. -/
def Ending.Coded : Ending → Prop
  | .exited code _ _ _ => code ≤ 0x7fffffff
  | _ => True

theorem writable_failed {name message detail : String} {code : Int} {date : Timestamp}
    {r : Reading} (hcode : Int32Range code) (hdate : date.Printable)
    (h : failed name code message detail date = .reading r) : r.Writable := by
  obtain rfl := Outcome.reading.inj h
  obtain ⟨hcivil, hwritten⟩ := Timestamp.printable_iff.mp hdate
  have hstatus : Int32Range Status.error := by decide
  rw [Reading.withDetail]
  split
  · exact ⟨⟨hstatus, hcode, fun _ hv => absurd hv List.not_mem_nil, hcivil⟩, hwritten⟩
  · refine ⟨⟨hstatus, hcode, List.forall_mem_singleton.mpr ⟨rfl, ?_⟩, hcivil⟩, hwritten⟩
    exact fun _ hn => absurd hn List.not_mem_nil

/-- Of a report's fields, its status has 32 bits and its content can be written. -/
def Report.checks (outer : ℕ) :
    Checks [Int, String, Option Value, Option Value, Option Value] :=
  (Int32Range, fun _ => True, Reading.Slot outer, Reading.Slot outer, Reading.Slot outer, ())

theorem Report.meets_checks (outer : ℕ) :
    record.layout.Meets (Doc.Bounded outer) (checks outer) :=
  ⟨.required (fun _ _ _ _ h => Json.range_of_integer h), .any, Reading.meets_slot outer "value",
    Reading.meets_slot outer "metrics", Reading.meets_slot outer "detail", trivial⟩

theorem Report.slots_of_read {d : Doc} {report : Report} (hd : d.Bounded 0)
    (h : codec.read .text d = .ok report) :
    Int32Range report.status ∧ Reading.Slot 1 report.value ∧ Reading.Slot 1 report.metrics ∧
      Reading.Slot 1 report.detail := by
  obtain ⟨⟨status, message, value, metrics, detail, _⟩, hrow, rfl⟩ := Json.map_eq_ok.mp h
  obtain ⟨hstatus, -, hvalue, hmetrics, hdetail, -⟩ :=
    Json.Record.read_all (Report.meets_checks 1) hd.parts hrow
  exact ⟨hstatus, hvalue, hmetrics, hdetail⟩

theorem writable_reported {name details : String} {output : List UInt8} {date : Timestamp}
    {r : Reading} (hdate : date.Printable)
    (h : reported name output details date = .reading r) : r.Writable := by
  unfold reported at h
  generalize Text.decodeLossy output = text at h
  dsimp only at h
  cases hreport : Json.decode Report.codec.read (Text.trim text) with
  | error e =>
    rw [hreport] at h
    exact writable_failed (by decide) hdate h
  | ok report =>
    rw [hreport] at h
    obtain rfl := Outcome.reading.inj h
    obtain ⟨hcivil, hwritten⟩ := Timestamp.printable_iff.mp hdate
    obtain ⟨hstatus, hvalue, hmetrics, hdetail⟩ :=
      Report.slots_of_read (Doc.ofGlyphs_bounded _) (Json.read_of_decodeGlyphs hreport)
    refine ⟨⟨hstatus, (by decide : Int32Range 0), fun v hv => ?_, hcivil⟩, hwritten⟩
    rcases Reading.mem_content.mp hv with hv | hv | hv
    · exact (hvalue v hv).2.1
    · exact (hmetrics v hv).2.1
    · exact (hdetail v hv).2.1

/-- Whatever a probe does, the reading of its run can be written. -/
theorem writable_outcome {name : String} {date : Timestamp} {ending : Ending} {r : Reading}
    (hdate : date.Printable) (hcode : ending.Coded) (h : outcome name date ending = .reading r) :
    r.Writable := by
  cases ending with
  | notStarted why => exact writable_failed (by decide) hdate h
  | timedOut => exact writable_failed (by decide) hdate h
  | lost why => exact writable_failed (by decide) hdate h
  | killed signal output errors dumped => exact writable_failed (by decide) hdate h
  | exited code output errors details =>
    rw [outcome] at h
    split at h
    · cases h
    · split at h
      · exact writable_reported hdate h
      · have hrange : Int32Range (code : Int) := by
          have hle : code ≤ 0x7fffffff := hcode
          rw [Int32Range]
          omega
        exact writable_failed hrange hdate h

end Probe

/-! ## Changes of the tree -/

variable {Q : Reading → Prop}

/-- Whether the readings that a change brings are of a kind, and its date has 64 bits. -/
def Change.Carries (Q : Reading → Prop) : Change → Prop
  | .merge incoming now => Int64Range now ∧ incoming.Everywhere (Node.Carries Q)
  | .submit r => Q r
  | _ => True

theorem Change.Carries.imp {P : Reading → Prop} (hPQ : ∀ r, P r → Q r) {c : Change}
    (h : c.Carries P) : c.Carries Q := by
  cases c with
  | merge incoming now => exact ⟨h.1, fun m hm => (h.2 m hm).imp hPQ⟩
  | submit r => exact hPQ r h
  | dropReading name => exact trivial
  | disable name => exact trivial
  | sweep now => exact trivial
  | dropChild uuid => exact trivial

/-- What a relay takes: snapshots that were read from texts, and readings of runs of probes. -/
def Change.Relays : Change → Prop
  | .merge incoming now => Int64Range now ∧ ∃ clock, InYears clock ∧ incoming.IsRead clock
  | .submit r => ∃ name date ending, Timestamp.Printable date ∧ Probe.Ending.Coded ending ∧
      Probe.outcome name date ending = .reading r
  | _ => True

theorem Change.Relays.carries {c : Change} (h : c.Relays) : c.Carries Reading.Writable := by
  cases c with
  | merge incoming now =>
    obtain ⟨hnow, clock, hclock, hread⟩ := h
    exact ⟨hnow, fun m hm => (hread.received.portable hclock m hm).imp fun _ hr => hr.writable⟩
  | submit r =>
    obtain ⟨name, date, ending, hdate, hcode, hr⟩ := h
    exact Probe.writable_outcome hdate hcode hr
  | dropReading name => exact trivial
  | disable name => exact trivial
  | sweep now => exact trivial
  | dropChild uuid => exact trivial

namespace Node

variable {n : Node}

/-- A node of a tree that holds readings of a kind and is normalized. -/
structure Servable (Q : Reading → Prop) (n : Node) : Prop where
  carries : n.Carries Q
  named : n.Named

theorem Servable.restated {m : Node} (hm : m.Servable Q) (h : Restated n m)
    (hhostname : n.hostname = m.hostname) (hname : n.localHost.name = m.localHost.name) :
    n.Servable Q where
  carries := steady_carries Q n m h hm.carries
  named := by
    rw [Named, hhostname, hname]
    exact hm.named

theorem flagless_servable (Q : Reading → Prop) : Flagless (Servable Q) := fun _ _ h hm =>
  hm.restated
    ⟨congrArg (fun info => info.uuid) h, congrArg (fun info => info.localHost.readings) h,
      congrArg (fun info => info.lastUpdate) h, congrArg (fun info => info.disabled) h⟩
    (congrArg (fun info => info.hostname) h) (congrArg (fun info => info.localHost.name) h)

theorem servable_submit (h : n.Everywhere (Servable Q)) {r : Reading} (hr : Q r) :
    (n.submit r).1.Everywhere (Servable Q) := by
  obtain ⟨hcarries, hnamed⟩ := (everywhere_iff.mp h).1
  refine Everywhere.rollup (flagless_servable Q).stable (h.root ⟨⟨?_, fun e he => ?_, ?_⟩, ?_⟩ rfl)
  · exact Keyed.ordered_insert hcarries.tabled r.name r
  · rcases Keyed.mem_insert he with rfl | he
    · exact hr
    · exact hcarries.readings e he
  · exact hcarries.lastUpdate
  · exact hnamed

theorem servable_dropReading (h : n.Everywhere (Servable Q)) (name : String) :
    (n.dropReading name).1.Everywhere (Servable Q) := by
  obtain ⟨hcarries, hnamed⟩ := (everywhere_iff.mp h).1
  have hdrop : (n.localHost.drop name).name = n.localHost.name ∧
      (n.localHost.drop name).readings.Sublist n.localHost.readings := by
    rw [Host.drop]
    split
    · exact ⟨rfl, Keyed.erase_sublist name _⟩
    · exact ⟨rfl, List.Sublist.refl _⟩
  rw [dropReading]
  split
  · exact h
  · refine Everywhere.rollup (flagless_servable Q).stable
      (h.root ⟨⟨?_, fun e he => ?_, ?_⟩, ?_⟩ rfl)
    · exact List.Pairwise.sublist hdrop.2 hcarries.tabled
    · exact hcarries.readings e (hdrop.2.subset he)
    · exact hcarries.lastUpdate
    · exact fun hname => hdrop.1.trans (hnamed hname)

theorem servable_new (Q : Reading → Prop) (uuid hostname group : String) {now : Int}
    (hnow : Int64Range now) : (Node.new uuid hostname group now).Everywhere (Servable Q) := by
  refine Everywhere.rollup (flagless_servable Q).stable
    (everywhere_iff.mpr ⟨⟨⟨List.Pairwise.nil, ?_, hnow⟩, id⟩, ?_⟩)
  · exact fun _ he => absurd he List.not_mem_nil
  · exact fun _ he => absurd he List.not_mem_nil

theorem servable_apply (h : n.Everywhere (Servable Q)) (timeout : Int) {c : Change}
    (hc : c.Carries Q) : (c.apply timeout n).1.Everywhere (Servable Q) := by
  cases c with
  | merge incoming now =>
    obtain ⟨hnow, hcarries⟩ := hc
    have hs : incoming.normalize.Everywhere (Servable Q) := fun m hm =>
      ⟨hcarries.normalize (steady_carries Q) m hm, normalize_named incoming m hm⟩
    obtain ⟨hroot, hnamed⟩ := (everywhere_iff.mp hs).1
    exact h.merge (flagless_servable Q) hs ⟨{ hroot with lastUpdate := hnow }, hnamed⟩
  | submit r => exact servable_submit h hc
  | dropReading name => exact servable_dropReading h name
  | disable name =>
    obtain ⟨hcarries, hnamed⟩ := (everywhere_iff.mp h).1
    exact h.root ⟨⟨hcarries.tabled, hcarries.readings, hcarries.lastUpdate⟩, hnamed⟩ rfl
  | sweep now => exact h.sweep (flagless_servable Q) now timeout
  | dropChild uuid => exact h.dropChild (flagless_servable Q) uuid

end Node

/-! ## Meshes -/

namespace Mesh

/-- The reachable meshes that took readings of a kind only. -/
inductive Takes (Q : Reading → Prop) : Mesh → Prop
  | new (uuid hostname group : String) {now : Int} (hnow : Int64Range now) (timeout : Int) :
    Takes Q (Mesh.new (Node.new uuid hostname group now) timeout)
  | run {m : Mesh} (h : Takes Q m) {c : Change} (hc : c.Carries Q) : Takes Q (m.run c)

/-- The reachable meshes of machines that take nothing but what a relay takes. -/
inductive Relays : Mesh → Prop
  | new (uuid hostname group : String) {now : Int} (hnow : Int64Range now) (timeout : Int) :
    Relays (Mesh.new (Node.new uuid hostname group now) timeout)
  | run {m : Mesh} (h : Relays m) {c : Change} (hc : c.Relays) : Relays (m.run c)

variable {m : Mesh}

theorem Takes.imp {P : Reading → Prop} (hPQ : ∀ r, P r → Q r) (h : m.Takes P) : m.Takes Q := by
  induction h with
  | new uuid hostname group hnow timeout => exact .new uuid hostname group hnow timeout
  | run _ hc ih => exact .run ih (hc.imp hPQ)

theorem Takes.reachable (h : m.Takes Q) : m.Reachable := by
  induction h with
  | new uuid hostname group hnow timeout => exact .new uuid hostname group _ timeout
  | run _ _ ih => exact ih.run _

theorem Takes.servable (h : m.Takes Q) : m.root.Everywhere (Node.Servable Q) := by
  induction h with
  | new uuid hostname group hnow timeout => exact Node.servable_new Q uuid hostname group hnow
  | @run m hm c hc ih =>
    rw [run_root]
    exact Node.servable_apply ih m.timeout hc

/-- A snapshot is settled, and its readings are of the kind that the mesh takes. -/
theorem Takes.snapshot (h : m.Takes Q) (depth : Int) :
    (m.snapshot depth).Settled ∧ (m.snapshot depth).Everywhere (Node.Carries Q) := by
  have hs := h.servable
  have hc := h.reachable.coherent
  have hsettled : m.root.Settled := ⟨hc.sound, fun n hn => (hs n hn).named, hc.rolled⟩
  have hcarries : m.root.Everywhere (Node.Carries Q) := fun n hn => (hs n hn).carries
  exact ⟨Node.settled_truncate hsettled depth,
    hcarries.truncate (Node.steady_carries Q).stable depth⟩

theorem Relays.takes (h : m.Relays) : m.Takes Reading.Writable := by
  induction h with
  | new uuid hostname group hnow timeout => exact .new uuid hostname group hnow timeout
  | run _ hc ih => exact .run ih hc.carries

theorem Relays.writable_snapshot (h : m.Relays) (depth : Int) :
    (m.snapshot depth).Everywhere Node.Writable := by
  obtain ⟨hsettled, hcarries⟩ := h.takes.snapshot depth
  exact Node.writable_of_rollup hsettled.sound hsettled.rolled hcarries

/-- A relay's snapshot has a text, and that is read unless too many containers are open in
it at once. -/
theorem snapshot_text_readable (h : m.Relays) (depth now : Int)
    (hnesting : (m.snapshot depth).toValue.nesting ≤ Doc.nestingLimit) :
    ∃ text, (m.snapshot depth).text? = some text ∧ ∃ n, Node.ofText now text 0 = .ok n := by
  have hdated := Node.isDated_of_writable (h.takes.snapshot depth).2
  exact ⟨_, Node.text?_eq_some.mpr ⟨hdated, rfl⟩, _,
    Node.ofText_toText (h.writable_snapshot depth) hnesting now 0⟩

/-- Between two seconds. -/
def timeoutDate : Timestamp := ⟨1970, 1, 1, 0, 0, 3, 141592653, 0⟩

/-- A machine with a probe that did not end, to which another machine reports. -/
def relayMesh : Mesh :=
  ((Mesh.new (Node.new "u" "web-1" "web" 0) 60).run
    (.submit (.plain "disk" Status.error Probe.noCode "Probe timeout" timeoutDate))).run
    (.merge (Node.settle 0 Node.statedSnapshot) 7)

theorem printable_timeoutDate : timeoutDate.Printable :=
  ⟨by decide, by decide, by decide, by decide, by decide, by decide, by decide⟩

theorem relayMesh_relays : relayMesh.Relays := by
  have hread : Node.ofText 5 (Node.settle 0 Node.statedSnapshot).toText 0
      = .ok (Node.settle 0 Node.statedSnapshot) :=
    Node.ofText_toText_of_portable (Node.settled_settle 0 _) Node.portable_statedSnapshot
      Node.enabled_statedSnapshot Node.floatFree_statedSnapshot Node.nesting_statedSnapshot 5
  refine .run (.run (.new "u" "web-1" "web" (by decide) 60) ?_) ?_
  · exact ⟨"disk", timeoutDate, .timedOut, printable_timeoutDate, trivial, rfl⟩
  · exact ⟨by decide, 5, by decide, .text hread⟩

theorem relayMesh_readable : relayMesh.Relays ∧
    (relayMesh.snapshot 1).toValue.nesting ≤ Doc.nestingLimit ∧
    ∃ text, (relayMesh.snapshot 1).text? = some text ∧ ∃ n, Node.ofText 9 text 0 = .ok n := by
  have hnesting : (relayMesh.snapshot 1).toValue.nesting ≤ Doc.nestingLimit := by decide +kernel
  exact ⟨relayMesh_relays, hnesting, snapshot_text_readable relayMesh_relays 1 9 hnesting⟩

/-! ## Snapshots that are too deep -/

/-- An array in arrays. -/
def nestedArray : ℕ → Value
  | 0 => .array []
  | n + 1 => .array [nestedArray n]

theorem nestedArray_numbers (n : ℕ) : (nestedArray n).numbers = [] := by
  induction n with
  | zero => rfl
  | succ n ih => rw [nestedArray, Value.numbers, Value.itemNumbers, Value.itemNumbers, ih]; rfl

theorem nestedArray_sorted (n : ℕ) : (nestedArray n).sorted = nestedArray n := by
  induction n with
  | zero => rfl
  | succ n ih => rw [nestedArray, Value.sorted, Value.sortedItems, Value.sortedItems, ih]

def deepReading : Reading :=
  { Reading.plain "load" Status.ok 0 "" (.ofUnix 0) with metrics := some (nestedArray 122) }

theorem deepReading_content {v : Value} (h : v ∈ deepReading.content) : v = nestedArray 122 :=
  List.mem_singleton.mp h

/-- A snapshot in which 127 containers are open at once. -/
def deepSnapshot : Node :=
  Node.settle 0
    ⟨⟨"a", "", "web-1", true, 0, "", ⟨"web-1", "", 0, [("load", deepReading)]⟩, 0, []⟩, []⟩

theorem read_deepSnapshot : Node.ofText 5 deepSnapshot.toText 0 = .ok deepSnapshot := by
  have hportable : deepReading.Portable := by
    refine ⟨by decide, by decide, fun v hv => ?_, Timestamp.printable_ofUnix (by decide)⟩
    rw [deepReading_content hv]
    refine ⟨nofun, nestedArray_sorted 122, fun n hn => ?_⟩
    rw [nestedArray_numbers] at hn
    exact absurd hn List.not_mem_nil
  have hfree : deepReading.FloatFree := fun v hv n hn => by
    rw [deepReading_content hv, nestedArray_numbers] at hn
    exact absurd hn List.not_mem_nil
  refine Node.read_settle_leaf ?_ ?_ ?_ ?_ (by decide +kernel) 5
  · rfl
  · exact ⟨List.pairwise_singleton _ _, List.forall_mem_singleton.mpr hportable, by decide⟩
  · rfl
  · exact List.forall_mem_singleton.mpr hfree

/-- A machine that merged the snapshot.  In its own snapshots 129 containers are open. -/
def deepMesh : Mesh := (Mesh.new (Node.new "r" "root" "" 0) 60).run (.merge deepSnapshot 7)

theorem deepMesh_relays : deepMesh.Relays :=
  .run (.new "r" "root" "" (by decide) 60)
    ⟨by decide, 5, by decide, .text read_deepSnapshot⟩

/-- Not every snapshot of a relay is read. -/
theorem deep_snapshot_unreadable : ¬ ∀ m : Mesh, m.Relays → ∀ depth now : Int,
    ∃ text, (m.snapshot depth).text? = some text ∧ ∃ n, Node.ofText now text 0 = .ok n := by
  intro h
  obtain ⟨text, htext, n, hn⟩ := h deepMesh deepMesh_relays 0 0
  obtain ⟨-, rfl⟩ := Node.text?_eq_some.mp htext
  have hlegible : (deepMesh.snapshot 0).toValue.Legible :=
    Node.legible_toValue (deepMesh_relays.writable_snapshot 0)
  have hrefused : (Node.readLevels 0 Doc.nestingLimit .text
      (Doc.nested 0 (deepMesh.snapshot 0).toValue.reread)).isOk = false := by decide +kernel
  obtain ⟨stated, hstated, _⟩ := Json.map_eq_ok.mp hn
  rw [Node.toText, Json.decode_render hlegible] at hstated
  have hread : (Node.readLevels 0 Doc.nestingLimit .text
      (Doc.nested 0 (deepMesh.snapshot 0).toValue.reread)) = .ok stated := hstated
  rw [hread] at hrefused
  cases hrefused

end Mesh
end FleetMesh
