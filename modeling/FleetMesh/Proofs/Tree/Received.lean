/-
Snapshots that come as texts.

Whatever a text states, the node that is read from it has its tables of readings
in key order (`IsRead.tabled`): a table is made by storing one entry after the
other, and normalizing and cutting a snapshot keep the tables as they are.  The
node is also one that a text can hold, if the clock that dates its readings is:
`IsRead.received` says so of every node of the tree, and that the tree is not nested
more deeply than the text may have been.
-/
import FleetMesh.Proofs.Tree.Portable

namespace FleetMesh

open Json (Checks Codec Doc Field Source Value)
open Timestamp (InYears)

/-! ## Readings -/

namespace Reading

/-- Free-form content that was read inside `outer` containers, if there is any. -/
def Slot (outer : ℕ) (slot : Option Value) : Prop := ∀ v, slot = some v → v ≠ .null ∧ v.Within outer

theorem null_of_freeForm {d : Doc} (h : Json.Read.freeForm d = .ok .null) : d = .null := by
  cases d with
  | null => rfl
  | array docs ending =>
    obtain ⟨items, _, h⟩ := Json.bind_eq_ok.mp h
    cases h
  | object fields ending =>
    obtain ⟨members, _, h⟩ := Json.bind_eq_ok.mp h
    cases h
  | _ => cases h

theorem meets_slot (outer : ℕ) (name : String) :
    (Field.sparse name freeForm).Meets (Doc.Bounded outer) (Slot outer) := by
  refine .sparse (fun v hv => nomatch hv) fun source d v hd hnull hread w hw => ?_
  obtain rfl := Option.some.inj hw
  exact ⟨fun hv => hnull (null_of_freeForm (hv ▸ hread)), Json.freeForm_bounded hd hread⟩

/-- Of a reading's fields, its integers have 32 bits, its content was read inside `outer`
containers, and its date has a year of four digits, as the clock's has. -/
def checks (now : Int) (outer : ℕ) : Checks
    [String, Int, String, Option Value, Option Value, Option Value, Int, Timestamp] :=
  (fun _ => True, Int32Range, fun _ => True, Slot outer, Slot outer, Slot outer, Int32Range,
    fun date => InYears now → date.Printable, ())

theorem meets_checks (now : Int) (outer : ℕ) :
    (record now).layout.Meets (Doc.Bounded outer) (checks now outer) :=
  ⟨.any, .required (fun _ _ _ _ h => Json.range_of_integer h), .any, meets_slot outer "value",
    meets_slot outer "metrics", meets_slot outer "detail",
    .optional (fun _ _ _ _ h => Json.range_of_integer h) (by decide),
    .optional (fun _ _ _ _ h _ => Timestamp.printable_of_read h) Timestamp.printable_ofUnix,
    trivial⟩

/-- A reading that was read at `now` inside `outer` containers. -/
structure Received (now : Int) (outer : ℕ) (r : Reading) : Prop where
  portable : InYears now → r.Portable
  nesting : ((codec 0).write r).nesting + outer ≤ Doc.nestingLimit

theorem received_of_read {now : Int} {outer : ℕ} {source : Source} {d : Doc} {r : Reading}
    (hd : d.Bounded outer) (hread : (codec now).read source d = .ok r) : r.Received now outer := by
  obtain ⟨⟨name, status, message, value, metrics, detail, exitCode, date, _⟩, hrow, rfl⟩ :=
    Json.map_eq_ok.mp hread
  obtain ⟨-, hstatus, -, hvalue, hmetrics, hdetail, hcode, hdate, -⟩ :=
    Json.Record.read_all (meets_checks now (outer + 1)) hd.parts hrow
  have hroom := Json.Record.room hd hrow
  have hcontent : ∀ v ∈ content ⟨name, status, message, value, metrics, detail, exitCode, date⟩,
      v ≠ .null ∧ v.Within (outer + 1) := by
    intro v hv
    rcases mem_content.mp hv with hv | hv | hv
    · exact hvalue v hv
    · exact hmetrics v hv
    · exact hdetail v hv
  refine ⟨fun hnow => ⟨hstatus, hcode, fun v hv => ?_, hdate hnow⟩, ?_⟩
  · obtain ⟨hnull, hportable, _⟩ := hcontent v hv
    exact ⟨hnull, hportable⟩
  · have hle := nesting_write_le 0 fun v hv => (hcontent v hv).2.2
    exact Nat.add_le_of_le_sub hroom.le (Nat.le_trans hle (by omega))

end Reading

namespace Host

/-- A host that was read at `now` inside `outer` containers: its readings are inside two
more. -/
structure Received (now : Int) (outer : ℕ) (h : Host) : Prop where
  tabled : Keyed.Ordered h.readings
  readings : ∀ e ∈ h.readings, e.2.Received now (outer + 2)
  room : outer < Doc.nestingLimit

theorem received_of_read {now : Int} {outer : ℕ} {source : Source} {d : Doc} {h : Host}
    (hd : d.Bounded outer) (hread : (codec now).read source d = .ok h) : h.Received now outer := by
  obtain ⟨⟨name, group, status, readings, _⟩, hrow, rfl⟩ := Json.map_eq_ok.mp hread
  let checks : Checks [String, String, Int, List (String × Reading)] :=
    (fun _ => True, fun _ => True, fun _ => True,
      fun table => Keyed.Ordered table ∧ ∀ e ∈ table, e.2.Received now (outer + 2), ())
  have hmeets : (record now).layout.Meets (Doc.Bounded (outer + 1)) checks := by
    refine ⟨.any, .any, .any, .optional (fun _ d table hd htable => ?_) ?_, trivial⟩
    · exact ⟨Json.ordered_of_table htable,
        Json.forall_of_table (fun _ _ hd hr => Reading.received_of_read hd hr) hd.parts htable⟩
    · exact ⟨List.Pairwise.nil, fun _ he => absurd he List.not_mem_nil⟩
  obtain ⟨-, -, -, ⟨htabled, hreadings⟩, -⟩ := Json.Record.read_all hmeets hd.parts hrow
  exact ⟨htabled, hreadings, Json.Record.room hd hrow⟩

end Host

/-! ## Nodes -/

namespace Node

/-- A tree that was read at `now`, its root inside `outer` containers. -/
structure Received (now : Int) (outer : ℕ) (n : Node) : Prop where
  tabled : n.Tabled
  portable : InYears now → n.Everywhere Portable
  enabled : n.Everywhere (fun m => m.disabled = [])
  nesting : n.toValue.nesting + outer ≤ Doc.nestingLimit

/-- Of a node's fields, its host and its children were read inside `outer` containers. -/
def checks (now : Int) (outer : ℕ) : Checks Fields :=
  (fun _ => True, fun _ => True, fun _ => True, fun _ => True, fun _ => True, fun _ => True,
    Host.Received now outer, fun children => ∀ e ∈ children, Received now (outer + 1) e.2,
    Int64Range, ())

/-- A level of nodes takes two containers.  The host of a node takes the second of them too, so
in the innermost level there is still one left for its table of readings. -/
theorem received_of_readLevels {now : Int} (levels : ℕ) {level : ℕ} {source : Source} {d : Doc}
    {n : Node} (hd : d.Bounded (2 * level)) (hread : readLevels now levels source d = .ok n) :
    n.Received now (2 * level) := by
  induction levels generalizing level source d n with
  | zero => cases hread
  | succ levels ih =>
    obtain ⟨⟨uuid, version, hostname, isAlive, status, message, host, children, lastUpdate, _⟩,
      hrow, rfl⟩ := Json.map_eq_ok.mp hread
    have hbelow : ∀ source d entries, Doc.Bounded (2 * level + 1) d →
        Json.Read.table (readLevels now levels) source d = .ok entries →
          ∀ e ∈ entries, Received now (2 * (level + 1)) e.2 :=
      fun _ _ _ hd ht => Json.forall_of_table (fun _ _ hd hc => ih hd hc) hd.parts ht
    have hmeets : (record now ⟨fun entries => .object (childMembers entries),
        Json.Read.table (readLevels now levels)⟩).layout.Meets (Doc.Bounded (2 * level + 1))
          (checks now (2 * level + 1)) :=
      ⟨.any, .any, .any, .any, .any, .any,
        .required (fun _ _ _ hd hh => Host.received_of_read hd hh),
        .optional hbelow (fun _ he => absurd he List.not_mem_nil),
        .optional (fun _ _ _ _ h => Json.range_of_integer h) (by decide), trivial⟩
    obtain ⟨-, -, -, -, -, -, hhost, hchildren, hupdate, -⟩ :=
      Json.Record.read_all hmeets hd.parts hrow
    refine ⟨?_, fun hnow => ?_, ?_, ?_⟩
    · exact everywhere_iff.mpr ⟨hhost.tabled, fun e he => (hchildren e he).tabled⟩
    · exact everywhere_iff.mpr ⟨⟨hhost.tabled, fun e he => (hhost.readings e he).portable hnow,
        hupdate⟩, fun e he => (hchildren e he).portable hnow⟩
    · exact everywhere_iff.mpr ⟨rfl, fun e he => (hchildren e he).enabled⟩
    · have hroom := hhost.room
      have hle := Host.nesting_write_le 0 fun e he =>
        Nat.le_sub_of_add_le (hhost.readings e he).nesting
      have hlimit : Doc.nestingLimit = 127 := rfl
      refine Nat.add_le_of_le_sub (by omega) (nesting_toValue_le.mpr ⟨?_, fun e he => ?_⟩)
      · show ((Host.codec 0).write host).nesting + 1 ≤ _
        omega
      · have hchild := (hchildren e he).nesting
        omega

/-! ## Snapshots -/

theorem tabled_settle (depth : Int) {n : Node} (h : n.Tabled) : (settle depth n).Tabled :=
  (tabled_normalize h).truncate steady_tabled.stable depth

theorem Received.settle {now : Int} {outer : ℕ} {n : Node} (h : n.Received now outer)
    (depth : Int) : (Node.settle depth n).Received now outer where
  tabled := tabled_settle depth h.tabled
  portable := fun hnow =>
    ((h.portable hnow).normalize steady_portable).truncate steady_portable.stable depth
  enabled := (h.enabled.normalize steady_enabled).truncate steady_enabled.stable depth
  nesting := Nat.le_trans (Nat.add_le_add_right (nesting_settle depth n) outer) h.nesting

theorem received_of_decodeGlyphs {now depth : Int} {glyphs : List Text.Glyph} {n : Node}
    (h : (Json.decodeGlyphs (codec now).read glyphs).map (Node.settle depth) = .ok n) :
    n.Received now 0 := by
  obtain ⟨stated, hstated, rfl⟩ := Json.map_eq_ok.mp h
  have hread := Json.read_of_decodeGlyphs hstated
  have hstated : stated.Received now (2 * 0) :=
    received_of_readLevels Doc.nestingLimit (Doc.ofGlyphs_bounded glyphs) hread
  exact hstated.settle depth

/-- Whether a node was read, from a text or from its bytes, and at what time. -/
inductive IsRead (clock : Int) (n : Node) : Prop
  | text {text : String} {depth : Int} (h : ofText clock text depth = .ok n)
  | bytes {bytes : List UInt8} {depth : Int} (h : ofBytes clock bytes depth = .ok n)

theorem IsRead.received {clock : Int} {n : Node} (h : n.IsRead clock) : n.Received clock 0 := by
  cases h with
  | text h => exact received_of_decodeGlyphs h
  | bytes h => exact received_of_decodeGlyphs h

/-- A node that was read has its tables in key order. -/
theorem IsRead.tabled {clock : Int} {n : Node} (h : n.IsRead clock) : n.Tabled :=
  h.received.tabled

end Node
end FleetMesh
