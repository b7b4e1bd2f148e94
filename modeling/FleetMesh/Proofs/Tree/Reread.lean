/-
Snapshots written and read back.

A node is writable if its readings are and its statuses have 32 bits, which they have
in a sound tree that is rolled up (`writable_of_rollup`).  A writable tree is read
back from its text as the text says it, with the floats in its free-form content
reread, as long as no more containers are open at once than may be; then it is
normalized and cut (`ofText_toText`).  A tree that is settled and has no floats comes
back as it is told (`ofText_toText_of_settled`), and if its text says all of it, as it
was (`text_round_trip`).
-/
import FleetMesh.Proofs.Tree.Received
import FleetMesh.Proofs.Tree.Told

namespace FleetMesh

open Json (Codec Doc Field Source Value)

theorem Int32Range.int64 {n : Int} (h : Int32Range n) : Int64Range n := by
  obtain ⟨hlow, hhigh⟩ := h
  constructor <;> omega

theorem Int64Range.legible {n : Int} (h : Int64Range n) :
    (Value.int n).Legible ∧ (Value.int n).reread = .int n := by
  have hword : -0x8000000000000000 ≤ n ∧ n ≤ 0xffffffffffffffff := by
    obtain ⟨hlow, hhigh⟩ := h
    constructor <;> omega
  refine ⟨fun m hm => ?_, Value.reread_int hword⟩
  obtain rfl := List.mem_singleton.mp hm
  exact (Json.Number.legible_int hword).1

/-! ## Readings -/

namespace Reading

def FloatFree (r : Reading) : Prop := ∀ v ∈ r.content, v.FloatFree

instance (r : Reading) : Decidable r.FloatFree :=
  inferInstanceAs (Decidable (∀ v ∈ r.content, v.FloatFree))

def reread (r : Reading) : Reading :=
  { r with
    value := r.value.map Value.reread
    metrics := r.metrics.map Value.reread
    detail := r.detail.map Value.reread }

theorem content_reread (r : Reading) : r.reread.content = r.content.map Value.reread := by
  obtain ⟨name, status, message, value, metrics, detail, exitCode, date⟩ := r
  cases value <;> cases metrics <;> cases detail <;> rfl

theorem Writable.reread {r : Reading} (h : r.Writable) : r.reread.Writable where
  status := h.status
  exitCode := h.exitCode
  content := by
    intro v hv
    rw [content_reread] at hv
    obtain ⟨w, hw, rfl⟩ := List.mem_map.mp hv
    exact (h.content w hw).reread
  date := h.date
  written := h.written

theorem FloatFree.reread {r : Reading} (h : r.FloatFree) (hwritable : r.Writable) :
    r.reread = r := by
  have hslot : ∀ slot : Option Value, (∀ v, slot = some v → v ∈ r.content) →
      slot.map Value.reread = slot := by
    intro slot hslot
    cases slot with
    | none => rfl
    | some v =>
      have hv := hslot v rfl
      exact congrArg some ((h v hv).reread (hwritable.content v hv))
  rw [Reading.reread, hslot r.value fun v hv => mem_content.mpr (Or.inl hv),
    hslot r.metrics fun v hv => mem_content.mpr (Or.inr (Or.inl hv)),
    hslot r.detail fun v hv => mem_content.mpr (Or.inr (Or.inr hv))]

theorem write_reread {r : Reading} (now : Int) (h : r.Writable) :
    ((codec now).write r).reread = (codec now).write r.reread := by
  have hstatus := h.status.int64.legible.2
  have hcode := h.exitCode.int64.legible.2
  rw [write_eq, write_eq, Value.reread, Json.Value.membersReread_eq, Keyed.mapValues]
  obtain ⟨name, status, message, value, metrics, detail, exitCode, date⟩ := r
  cases value <;> cases metrics <;> cases detail <;>
    simp [reread, hstatus, hcode, Value.reread]

theorem legible_write {r : Reading} (now : Int) (h : r.Writable) :
    ((codec now).write r).Legible := by
  obtain ⟨members, hwrite, hmembers⟩ := forall_write now r (fun _ _ hn => nomatch hn)
    h.status.int64.legible.1 h.exitCode.int64.legible.1 fun v hv => (h.content v hv).legible
  exact hwrite ▸ Value.legible_object hmembers

theorem keeps_freeForm {v : Value} (h : v.Portable) : freeForm.Keeps v := fun _ =>
  (Json.freeForm_ofValue v).trans (congrArg Except.ok h.sorted)

theorem names_record (now : Int) : (record now).layout.names =
    ["name", "status", "message", "value", "metrics", "detail", "exit_code", "probe_date"] := rfl

/-- Free-form content comes back as it is told. -/
theorem returns_stated (name : String) {slot : Option Value} (h : ∀ v, slot = some v → v.Portable) :
    (Field.sparse name freeForm).Returns slot (stated slot) := by
  cases slot with
  | none => exact Field.keeps_sparse_none
  | some v =>
    by_cases hnull : v = .null
    · subst hnull
      exact Field.returns_sparse_null rfl
    · rw [stated_eq_self fun hv => hnull (Option.some.inj hv)]
      exact Field.returns_sparse (keeps_freeForm (h v rfl)) hnull

theorem returns {r : Reading} (now : Int) (h : r.Writable) : (codec now).Returns r r.told := by
  have hslot : ∀ (name : String) (slot : Option Value), (∀ v, slot = some v → v ∈ r.content) →
      (Field.sparse name freeForm).Returns slot (stated slot) := fun name slot hslot =>
    returns_stated name fun v hv => h.content v (hslot v hv)
  have hrow : (record now).layout.Returns
      (r.name, r.status, r.message, r.value, r.metrics, r.detail, r.exitCode, r.date, ())
      (r.name, r.status, r.message, stated r.value, stated r.metrics, stated r.detail, r.exitCode,
        r.date, ()) :=
    ⟨Field.keeps_required (Codec.keeps_string _), Field.keeps_required (Codec.keeps_int32 h.status),
      Field.keeps_optional (Codec.keeps_string _),
      hslot _ _ fun v hv => mem_content.mpr (Or.inl hv),
      hslot _ _ fun v hv => mem_content.mpr (Or.inr (Or.inl hv)),
      hslot _ _ fun v hv => mem_content.mpr (Or.inr (Or.inr hv)),
      Field.keeps_optional (Codec.keeps_int32 h.exitCode),
      Field.keeps_optional (Timestamp.keeps h.printable), trivial⟩
  exact Json.Record.returns (by rw [names_record]; decide) rfl hrow

theorem Portable.stated {r : Reading} (h : r.Portable) : r.Stated := fun v hv => (h.content v hv).1

theorem keeps {r : Reading} (now : Int) (h : r.Portable) : (codec now).Keeps r := by
  have hreturns := returns now h.writable
  rw [h.stated.told] at hreturns
  exact hreturns

end Reading

/-! ## Hosts -/

namespace Host

structure Writable (h : Host) : Prop where
  status : Int32Range h.status
  tabled : Keyed.Ordered h.readings
  readings : ∀ e ∈ h.readings, e.2.Writable

def reread (h : Host) : Host := h.mapReadings Reading.reread

variable {h : Host}

/-- The status of a host is one of its readings', or that of a host that has none. -/
theorem writable_of_rated (hrated : h.rate = h) (htabled : Keyed.Ordered h.readings)
    (hreadings : ∀ e ∈ h.readings, e.2.Writable) : h.Writable := by
  have hstatus : (h.readings.map (fun e => e.2.status)).max?.getD Status.ok = h.status := by
    rw [← worst_eq_max?]
    exact congrArg Host.status hrated
  refine ⟨?_, htabled, hreadings⟩
  rw [← hstatus]
  cases hmax : (h.readings.map (fun e => e.2.status)).max? with
  | none =>
    rw [Option.getD_none, Int32Range, Status.ok]
    omega
  | some status =>
    obtain ⟨e, he, hmem⟩ := List.mem_map.mp (List.max?_mem hmax)
    exact hmem ▸ (hreadings e he).status

theorem Writable.reread (hw : h.Writable) : h.reread.Writable where
  status := hw.status
  tabled := Keyed.ordered_mapValues.mpr hw.tabled
  readings := by
    intro e he
    obtain ⟨d, hd, rfl⟩ := List.mem_map.mp he
    exact (hw.readings d hd).reread

theorem write_reread (now : Int) (hw : h.Writable) :
    ((codec now).write h).reread = (codec now).write h.reread := by
  have hreadings : Keyed.mapValues Value.reread
      (Keyed.mapValues (Reading.codec now).write h.readings)
        = Keyed.mapValues (Reading.codec now).write (Keyed.mapValues Reading.reread h.readings) :=
    Keyed.mapValues_swap fun e he => Reading.write_reread now (hw.readings e he)
  rw [write_eq, write_eq]
  simp only [Value.reread, Value.membersReread, hw.status.int64.legible.2, Value.membersReread_eq,
    hreadings, reread, mapReadings]

theorem legible_write (now : Int) (hw : h.Writable) : ((codec now).write h).Legible := by
  have hreadings : (Value.object (Keyed.mapValues (Reading.codec now).write h.readings)).Legible :=
    Value.legible_object fun m hm => by
      obtain ⟨e, he, rfl⟩ := List.mem_map.mp hm
      exact Reading.legible_write now (hw.readings e he)
  rw [write_eq]
  refine Value.legible_object (List.forall_mem_cons.mpr ⟨Value.legible_leaf rfl, ?_⟩)
  refine List.forall_mem_cons.mpr ⟨Value.legible_leaf rfl, ?_⟩
  refine List.forall_mem_cons.mpr ⟨hw.status.int64.legible.1, ?_⟩
  exact List.forall_mem_singleton.mpr hreadings

theorem names_record (now : Int) :
    (record now).layout.names = ["name", "group", "status", "probes"] := rfl

theorem returns (now : Int) (hw : h.Writable) : (codec now).Returns h h.told :=
  Json.Record.returns (by rw [names_record]; decide) rfl ⟨Codec.keeps_string _,
    Codec.keeps_string _, Codec.keeps_int32 hw.status,
    Codec.returns_table hw.tabled fun e he => Reading.returns now (hw.readings e he), trivial⟩

end Host

/-! ## Nodes -/

namespace Node

/-- A node that there is a text of, if its children are. -/
structure Writable (n : Node) : Prop where
  ordered : Keyed.Ordered n.children
  host : n.localHost.Writable
  status : Int32Range n.globalStatus
  lastUpdate : Int64Range n.lastUpdate

/-- In a sound tree the statuses come from the readings, so they have the size of the readings'
statuses. -/
theorem writable_of_rollup {n : Node} (hsound : n.Everywhere Sound) (hrolled : n.rollup = n)
    (hreadings : n.Everywhere (Carries Reading.Writable)) : n.Everywhere Writable := by
  induction n using induct with
  | step n ih =>
    obtain ⟨hs, hsounds⟩ := everywhere_iff.mp hsound
    obtain ⟨hr, hreadingsBelow⟩ := everywhere_iff.mp hreadings
    have hchildren := Keyed.mapValues_eq_self_iff.mp (rollup_eq_self_iff.mp hrolled).1
    have hbelow : ∀ e ∈ n.children, e.2.Everywhere Writable := fun e he =>
      ih e he (hsounds e he) (hchildren e he) (hreadingsBelow e he)
    have hhost := Host.writable_of_rated hs.rated hr.tabled hr.readings
    refine everywhere_iff.mpr ⟨⟨hs.ordered, hhost, ?_, hr.lastUpdate⟩, hbelow⟩
    have hdown : Int32Range (max n.localHost.status Status.down) := by
      obtain ⟨hlow, hhigh⟩ := hhost.status
      rw [Int32Range, Status.down]
      omega
    rcases List.mem_cons.mp (List.max?_mem (globalStatus_of_rollup hrolled)) with hlocal | hchild
    · rw [hlocal, localStatus]
      split
      · exact hhost.status
      · exact hdown
    · obtain ⟨e, he, hstatus⟩ := List.mem_map.mp hchild
      exact hstatus ▸ (everywhere_iff.mp (hbelow e he)).1.status

/-- The fields of a node. -/
def toRow (n : Node) : Json.Row Fields :=
  (n.uuid, n.version, n.hostname, n.isAlive, n.globalStatus, n.globalMessage, n.localHost,
    n.children, n.lastUpdate, ())

theorem ofRow_toRow {n : Node} (h : n.disabled = []) : ofRow n.toRow = n := by
  obtain ⟨⟨uuid, version, hostname, isAlive, status, message, host, lastUpdate, disabled⟩,
    children⟩ := n
  obtain rfl : disabled = [] := h
  rfl

/-- The record that reads `levels` levels below a node. -/
def levelRecord (now : Int) (levels : ℕ) : Json.Record Fields :=
  record now ⟨fun entries => .object (childMembers entries),
    Json.Read.table (readLevels now levels)⟩

theorem toValue_row (now : Int) (levels : ℕ) (n : Node) :
    n.toValue = .object ((levelRecord now levels).layout.members n.toRow) := by
  rw [toValue_eq, ← childMembers_eq, Host.write_clock 0 now]
  rfl

theorem names_levelRecord (now : Int) (levels : ℕ) : (levelRecord now levels).layout.names =
    ["uuid", "version", "hostname", "is_alive", "global_status", "global_message", "local_host",
      "children", "last_update"] := rfl

theorem returns_levelRecord {now : Int} {levels : ℕ} {n : Node} (h : n.Writable)
    (hchildren : ∀ e ∈ n.children, ∀ source,
      readLevels now levels source (Doc.ofValue e.2.toValue) = .ok e.2.told) :
    (levelRecord now levels).layout.Returns n.toRow n.told.toRow := by
  let c : Codec Node := ⟨toValue, readLevels now levels⟩
  have htable : (⟨fun entries => .object (childMembers entries),
      Json.Read.table (readLevels now levels)⟩ : Codec (List (String × Node))).Returns
        n.children (Keyed.mapValues told n.children) := by
    intro source
    show Json.Read.table (readLevels now levels) source
      (Doc.ofValue (.object (childMembers n.children))) = _
    rw [childMembers_eq]
    exact Codec.returns_table (c := c) h.ordered hchildren source
  rw [told_eq]
  exact ⟨Field.keeps_required (Codec.keeps_string _), Field.keeps_optional (Codec.keeps_string _),
    Field.keeps_optional (Codec.keeps_string _), Field.keeps_optional (Codec.keeps_bool _),
    Field.keeps_optional (Codec.keeps_int32 h.status),
    Field.keeps_optional (Codec.keeps_string _), Host.returns now h.host, htable,
    Field.keeps_optional (Codec.keeps_int64 h.lastUpdate), trivial⟩

theorem readLevels_toValue {now : Int} (levels : ℕ) {n : Node} (h : n.Everywhere Writable)
    (hlevels : n.height ≤ levels) (source : Source) :
    readLevels now levels source (Doc.ofValue n.toValue) = .ok n.told := by
  induction levels generalizing source n with
  | zero =>
    rw [height_eq] at hlevels
    omega
  | succ levels ih =>
    obtain ⟨hn, hbelow⟩ := everywhere_iff.mp h
    rw [height_eq] at hlevels
    have hheights := heights_le_iff.mp (Nat.le_of_succ_le_succ hlevels)
    have hrow := returns_levelRecord hn fun e he => ih (hbelow e he) (hheights e he)
    have hread := Json.Record.read_members (by rw [names_levelRecord]; decide) hrow source
    have hnothing : n.told.disabled = [] := by rw [told_eq]; rfl
    show ((levelRecord now levels).read source (Doc.ofValue n.toValue)).map ofRow = _
    rw [toValue_row now levels, hread, Json.ok_map, ofRow_toRow hnothing]

/-! ## Floats -/

/-- The tree as its text is read: floats may come out as others. -/
def reread (n : Node) : Node :=
  n.restate fun info => { info with localHost := info.localHost.reread }

theorem reread_eq (n : Node) : n.reread = ⟨{ n.toNodeInfo with localHost := n.localHost.reread },
    Keyed.mapValues reread n.children⟩ := restate_eq _ n

theorem toValue_reread {n : Node} (h : n.Everywhere Writable) :
    n.toValue.reread = n.reread.toValue := by
  induction n using induct with
  | step n ih =>
    obtain ⟨hn, hbelow⟩ := everywhere_iff.mp h
    have hchildren : Keyed.mapValues Value.reread (Keyed.mapValues toValue n.children)
        = Keyed.mapValues toValue (Keyed.mapValues reread n.children) :=
      Keyed.mapValues_swap fun e he => ih e he (hbelow e he)
    rw [reread_eq, toValue_eq, toValue_eq]
    simp only [Value.reread, Value.membersReread, hn.status.int64.legible.2,
      hn.lastUpdate.legible.2, Host.write_reread 0 hn.host, Value.membersReread_eq, hchildren]

theorem writable_reread {n : Node} (h : n.Everywhere Writable) : n.reread.Everywhere Writable :=
  Everywhere.restate (fun _ hm =>
    ⟨Keyed.ordered_mapValues.mpr hm.ordered, hm.host.reread, hm.status, hm.lastUpdate⟩) h

/-- A node whose own readings have no floats. -/
def FloatFree (n : Node) : Prop := ∀ e ∈ n.localHost.readings, e.2.FloatFree

instance (n : Node) : Decidable n.FloatFree :=
  inferInstanceAs (Decidable (∀ e ∈ n.localHost.readings, e.2.FloatFree))

theorem steady_floatFree : Steady FloatFree := fun _ _ h hm e he => hm e (h.readings ▸ he)

theorem reread_eq_self {n : Node} (h : n.Everywhere Writable) (hfree : n.Everywhere FloatFree) :
    n.reread = n := by
  refine restate_eq_self (P := fun m => m.Writable ∧ m.FloatFree) (fun m hm => ?_)
    fun m hm => ⟨h m hm, hfree m hm⟩
  obtain ⟨hwritable, hfloatFree⟩ := hm
  rw [Host.reread, Host.mapReadings_eq_self fun e he =>
    (hfloatFree e he).reread (hwritable.host.readings e he)]

/-! ## Texts -/

theorem legible_toValue {n : Node} (h : n.Everywhere Writable) : n.toValue.Legible := by
  induction n using induct with
  | step n ih =>
    obtain ⟨hn, hbelow⟩ := everywhere_iff.mp h
    have hchildren : (Value.object (Keyed.mapValues toValue n.children)).Legible :=
      Value.legible_object fun m hm => by
        obtain ⟨e, he, rfl⟩ := List.mem_map.mp hm
        exact ih e he (hbelow e he)
    rw [toValue_eq]
    refine Value.legible_object fun m hm => ?_
    simp only [List.mem_cons, List.not_mem_nil, or_false] at hm
    rcases hm with rfl | rfl | rfl | rfl | rfl | rfl | rfl | rfl | rfl
    · exact Value.legible_leaf rfl
    · exact Value.legible_leaf rfl
    · exact Value.legible_leaf rfl
    · exact Value.legible_leaf rfl
    · exact hn.status.int64.legible.1
    · exact Value.legible_leaf rfl
    · exact Host.legible_write 0 hn.host
    · exact hchildren
    · exact hn.lastUpdate.legible.1

/-- A writable tree is read back as it is told with its floats reread, and then settled. -/
theorem ofText_toText {n : Node} (h : n.Everywhere Writable)
    (hnesting : n.toValue.nesting ≤ Doc.nestingLimit) (now depth : Int) :
    ofText now n.toText depth = .ok (settle depth n.reread.told) := by
  have hheight : n.reread.height ≤ Doc.nestingLimit := by
    refine Nat.le_trans (height_le_nesting n.reread) ?_
    rw [← toValue_reread h, Doc.nesting_reread]
    exact hnesting
  rw [ofText, toText, Json.decode_render_of_nesting (legible_toValue h) hnesting, toValue_reread h]
  show (readLevels now Doc.nestingLimit .text _).map _ = _
  rw [readLevels_toValue _ (writable_reread h) hheight, Json.ok_map]

/-- A tree that `settle` leaves as it is. -/
structure Settled (n : Node) : Prop where
  sound : n.Everywhere Sound
  named : n.Everywhere Named
  rolled : n.rollup = n

theorem settled_truncate {n : Node} (h : n.Settled) (depth : Int) : (n.truncate depth).Settled where
  sound := h.sound.truncate stable_sound depth
  named := h.named.truncate stable_named depth
  rolled := rollup_truncate h.rolled depth

theorem settled_settle (depth : Int) (n : Node) : (settle depth n).Settled := by
  refine settled_truncate ⟨normalize_sound n, normalize_named n, ?_⟩ depth
  rw [normalize_eq, rollup_rollup]

theorem Settled.settle {n : Node} (h : n.Settled) : Node.settle 0 n = n :=
  normalize_eq_self h.sound h.rolled h.named

theorem Settled.told {n : Node} (h : n.Settled) : n.told.Settled where
  sound := fair_told.sound_restate h.sound
  named := fair_told.named_restate h.named
  rolled := by
    rw [Node.told, fair_told.rollup_restate, h.rolled]

/-- A settled tree without floats is read back from its text as it is told. -/
theorem ofText_toText_of_settled {n : Node} (h : n.Settled)
    (hreadings : n.Everywhere (Carries Reading.Writable)) (hfree : n.Everywhere FloatFree)
    (hnesting : n.toValue.nesting ≤ Doc.nestingLimit) (now : Int) :
    ofText now n.toText 0 = .ok n.told := by
  have hwritable := writable_of_rollup h.sound h.rolled hreadings
  rw [ofText_toText hwritable hnesting, reread_eq_self hwritable hfree, h.told.settle]

/-- A settled tree that its text says all of is read back as it was. -/
theorem ofText_toText_of_portable {n : Node} (h : n.Settled) (hportable : n.Everywhere Portable)
    (henabled : n.Everywhere (fun m => m.disabled = [])) (hfree : n.Everywhere FloatFree)
    (hnesting : n.toValue.nesting ≤ Doc.nestingLimit) (now : Int) :
    ofText now n.toText 0 = .ok n := by
  have hstated : n.Everywhere Stated := fun m hm e he =>
    ((hportable m hm).readings e he).stated
  have hwritable : n.Everywhere (Carries Reading.Writable) := fun m hm =>
    (hportable m hm).imp fun _ hr => hr.writable
  rw [ofText_toText_of_settled h hwritable hfree hnesting, told_eq_self hstated henabled]

theorem read_settle_leaf {n : Node} (hleaf : n.children = []) (hportable : n.Portable)
    (henabled : n.disabled = []) (hfree : n.FloatFree)
    (hnesting : (Node.settle 0 n).toValue.nesting ≤ Doc.nestingLimit) (now : Int) :
    ofText now (Node.settle 0 n).toText 0 = .ok (Node.settle 0 n) := by
  have hone : ∀ {P : Node → Prop}, P n → n.Everywhere P := fun h =>
    everywhere_iff.mpr ⟨h, fun e he => absurd (hleaf ▸ he) List.not_mem_nil⟩
  exact ofText_toText_of_portable (settled_settle 0 n)
    (Everywhere.normalize steady_portable (hone hportable))
    (Everywhere.normalize steady_enabled (hone henabled))
    (Everywhere.normalize steady_floatFree (hone hfree)) hnesting now

theorem IsRead.settled {clock : Int} {n : Node} (h : n.IsRead clock) : n.Settled := by
  cases h with
  | text h =>
    obtain ⟨stated, _, rfl⟩ := Json.map_eq_ok.mp h
    exact settled_settle _ stated
  | bytes h =>
    obtain ⟨stated, _, rfl⟩ := Json.map_eq_ok.mp h
    exact settled_settle _ stated

/-- A settled tree without floats, in which nothing is out of service, is read back from its
text as it was.  So is whatever was read at a time that can be written, and has no floats. -/
theorem text_round_trip :
    (∀ n : Node, n.Settled → n.Everywhere Portable → n.Everywhere (fun m => m.disabled = []) →
      n.Everywhere FloatFree → n.toValue.nesting ≤ Doc.nestingLimit →
      ∀ now, ofText now n.toText 0 = .ok n) ∧
    ∀ (clock : Int) (n : Node), Timestamp.InYears clock → n.IsRead clock →
      n.Everywhere FloatFree → ∀ now, ofText now n.toText 0 = .ok n := by
  refine ⟨fun n h hp he hf hn now => ofText_toText_of_portable h hp he hf hn now, ?_⟩
  intro clock n hclock hread hfree now
  have hreceived := hread.received
  exact ofText_toText_of_portable hread.settled (hreceived.portable hclock) hreceived.enabled hfree
    hreceived.nesting now

/-- A reading with content, a date and a message to be escaped. -/
def statedReading : Reading :=
  ⟨"load", 250, "high \"now\"\n", some (.int (-3)),
    some (.object [("a", .array [.bool true, .null]), ("b", .string "é")]), none, 0, .ofUnix 0⟩

theorem portable_statedReading : statedReading.Portable where
  status := by decide
  exitCode := by decide
  content := by
    refine List.forall_mem_cons.mpr
      ⟨⟨nofun, rfl, ?_⟩, List.forall_mem_singleton.mpr ⟨nofun, rfl, ?_⟩⟩
    · refine List.forall_mem_singleton.mpr ?_
      show _ ∧ _
      decide
    · exact fun _ h => absurd h List.not_mem_nil
  date := Timestamp.printable_ofUnix (by decide)

theorem floatFree_statedReading : statedReading.FloatFree :=
  List.forall_mem_cons.mpr ⟨List.forall_mem_singleton.mpr ⟨-3, rfl⟩,
    List.forall_mem_singleton.mpr fun _ h => absurd h List.not_mem_nil⟩

/-- A snapshot of two machines that has no hostname and states its child under a key that is
not the child's. -/
def statedSnapshot : Node :=
  ⟨⟨"a", "1", "", true, 7, "", ⟨"web-1", "web", 0, [("load", statedReading)]⟩, 3, []⟩,
    [("x", ⟨⟨"b", "1", "web-2", true, 7, "", ⟨"web-2", "", 0, []⟩, 4, []⟩, []⟩)]⟩

theorem portable_statedSnapshot : (settle 0 statedSnapshot).Everywhere Portable :=
  Everywhere.normalize steady_portable (everywhere_iff.mpr
    ⟨⟨List.pairwise_singleton _ _, List.forall_mem_singleton.mpr portable_statedReading, by decide⟩,
      List.forall_mem_singleton.mpr (everywhere_iff.mpr
        ⟨⟨List.Pairwise.nil, fun _ h => absurd h List.not_mem_nil, by decide⟩,
          fun _ h => absurd h List.not_mem_nil⟩)⟩)

theorem enabled_statedSnapshot :
    (settle 0 statedSnapshot).Everywhere (fun m => m.disabled = []) :=
  Everywhere.normalize steady_enabled (everywhere_iff.mpr ⟨rfl, List.forall_mem_singleton.mpr
    (everywhere_iff.mpr ⟨rfl, fun _ h => absurd h List.not_mem_nil⟩)⟩)

theorem floatFree_statedSnapshot : (settle 0 statedSnapshot).Everywhere FloatFree :=
  Everywhere.normalize steady_floatFree (everywhere_iff.mpr
    ⟨List.forall_mem_singleton.mpr floatFree_statedReading,
      List.forall_mem_singleton.mpr (everywhere_iff.mpr
        ⟨fun _ h => absurd h List.not_mem_nil, fun _ h => absurd h List.not_mem_nil⟩)⟩)

theorem nesting_statedSnapshot : (settle 0 statedSnapshot).toValue.nesting ≤ Doc.nestingLimit :=
  Nat.le_trans (nesting_settle 0 statedSnapshot) (by decide)

theorem stated_round_trip :
    (settle 0 statedSnapshot).Settled ∧ (settle 0 statedSnapshot).Everywhere Portable ∧
      (settle 0 statedSnapshot).Everywhere (fun m => m.disabled = []) ∧
      (settle 0 statedSnapshot).Everywhere FloatFree ∧
      (settle 0 statedSnapshot).toValue.nesting ≤ Doc.nestingLimit ∧ Timestamp.InYears 5 ∧
      ofText 5 (settle 0 statedSnapshot).toText 0 = .ok (settle 0 statedSnapshot) ∧
      ofText 6 (settle 0 statedSnapshot).toText 0 = .ok (settle 0 statedSnapshot) := by
  have hread := text_round_trip.1 _ (settled_settle 0 statedSnapshot) portable_statedSnapshot
    enabled_statedSnapshot floatFree_statedSnapshot nesting_statedSnapshot 5
  exact ⟨settled_settle 0 statedSnapshot, portable_statedSnapshot, enabled_statedSnapshot,
    floatFree_statedSnapshot, nesting_statedSnapshot, by decide, hread,
    text_round_trip.2 5 _ (by decide) (.text hread) floatFree_statedSnapshot 6⟩

end Node
end FleetMesh
