/-
Trees that a text can hold.

A reading is sized if its integers have their bits, its date is one of the calendar and
its free-form content is such as is kept, and writable if moreover its date can be
written: then there is a text of it.  It is portable if the text says all of it, which a
text does unless the content is a bare `null`.  What a text says of a node is portable,
and so is every node whose readings are.

How deep a tree goes in containers depends on its readings and on its children
alone (`nesting_toValue_le`), and a level of nodes takes two (`height_le_nesting`).
-/
import FleetMesh.Node.Text
import FleetMesh.Proofs.Json.Bounded
import FleetMesh.Proofs.Timestamp.Text
import FleetMesh.Proofs.Tree.Readings

namespace FleetMesh

open Json (Value)

/-- An integer of 32 bits. -/
def Int32Range (n : Int) : Prop := -0x80000000 ≤ n ∧ n ≤ 0x7fffffff

/-- An integer of 64 bits. -/
def Int64Range (n : Int) : Prop := -0x8000000000000000 ≤ n ∧ n ≤ 0x7fffffffffffffff

instance (n : Int) : Decidable (Int32Range n) := inferInstanceAs (Decidable (_ ∧ _))

instance (n : Int) : Decidable (Int64Range n) := inferInstanceAs (Decidable (_ ∧ _))

namespace Reading

/-- The free-form content that a reading carries. -/
def content (r : Reading) : List Value := r.value.toList ++ r.metrics.toList ++ r.detail.toList

structure Sized (r : Reading) : Prop where
  status : Int32Range r.status
  exitCode : Int32Range r.exitCode
  content : ∀ v ∈ r.content, v.Portable
  date : r.date.Civil

structure Writable (r : Reading) : Prop extends r.Sized where
  written : r.date.isWritable = true

structure Portable (r : Reading) : Prop where
  status : Int32Range r.status
  exitCode : Int32Range r.exitCode
  /-- `null` stands for no content. -/
  content : ∀ v ∈ r.content, v ≠ .null ∧ v.Portable
  date : r.date.Printable

theorem Portable.writable {r : Reading} (h : r.Portable) : r.Writable where
  status := h.status
  exitCode := h.exitCode
  content := fun v hv => (h.content v hv).2
  date := (Timestamp.printable_iff.mp h.date).1
  written := (Timestamp.printable_iff.mp h.date).2

theorem Writable.printable {r : Reading} (h : r.Writable) : r.date.Printable :=
  Timestamp.printable_iff.mpr ⟨h.date, h.written⟩

theorem mem_content {r : Reading} {v : Value} :
    v ∈ r.content ↔ r.value = some v ∨ r.metrics = some v ∨ r.detail = some v := by
  rw [content, List.mem_append, List.mem_append, Option.mem_toList, Option.mem_toList,
    Option.mem_toList, or_assoc]

theorem write_eq (now : Int) (r : Reading) : (codec now).write r = .object
    (("name", .string r.name) :: ("status", .int r.status) :: ("message", .string r.message) ::
      ((r.value.map (fun v => ("value", v))).toList ++
        ((r.metrics.map (fun v => ("metrics", v))).toList ++
          ((r.detail.map (fun v => ("detail", v))).toList ++
            [("exit_code", .int r.exitCode), ("probe_date", .string r.date.render)])))) := by
  obtain ⟨name, status, message, value, metrics, detail, exitCode, date⟩ := r
  cases value <;> cases metrics <;> cases detail <;> rfl

/-- The clock matters for reading only. -/
theorem write_clock (now later : Int) : (codec now).write = (codec later).write := by
  funext r
  rw [write_eq, write_eq]

/-- A reading as a value: its free-form content, and apart from that strings and the two
integers. -/
theorem forall_write {P : Value → Prop} (now : Int) (r : Reading) (hstring : ∀ s, P (.string s))
    (hstatus : P (.int r.status)) (hcode : P (.int r.exitCode)) (hcontent : ∀ v ∈ r.content, P v) :
    ∃ members, (codec now).write r = .object members ∧ ∀ m ∈ members, P m.2 := by
  refine ⟨_, write_eq now r, fun m hm => ?_⟩
  simp only [List.mem_cons, List.mem_append, Option.mem_toList, Option.map_eq_some_iff,
    List.not_mem_nil, or_false] at hm
  rcases hm with rfl | rfl | rfl | ⟨v, hv, rfl⟩ | ⟨v, hv, rfl⟩ | ⟨v, hv, rfl⟩ | rfl | rfl
  · exact hstring _
  · exact hstatus
  · exact hstring _
  · exact hcontent v (mem_content.mpr (Or.inl hv))
  · exact hcontent v (mem_content.mpr (Or.inr (Or.inl hv)))
  · exact hcontent v (mem_content.mpr (Or.inr (Or.inr hv)))
  · exact hcode
  · exact hstring _

theorem nesting_write_le {r : Reading} {limit : ℕ} (now : Int)
    (h : ∀ v ∈ r.content, v.nesting ≤ limit) : ((codec now).write r).nesting ≤ limit + 1 := by
  obtain ⟨members, hwrite, hmembers⟩ := forall_write (P := fun v => v.nesting ≤ limit) now r
    (fun _ => Nat.zero_le limit) (Nat.zero_le limit) (Nat.zero_le limit) h
  rw [hwrite, Value.nesting]
  exact Nat.succ_le_succ (Value.memberNesting_le hmembers)

end Reading

namespace Host

theorem write_eq (now : Int) (h : Host) : (codec now).write h = .object
    [("name", .string h.name), ("group", .string h.group), ("status", .int h.status),
      ("probes", .object (Keyed.mapValues (Reading.codec now).write h.readings))] := rfl

theorem write_clock (now later : Int) : (codec now).write = (codec later).write := by
  funext h
  rw [write_eq, write_eq, Reading.write_clock now later]

theorem nesting_write (now : Int) (h : Host) : ((codec now).write h).nesting =
    Value.memberNesting (Keyed.mapValues (Reading.codec now).write h.readings) + 2 := by
  rw [write_eq]
  simp [Value.nesting, Value.memberNesting, Value.int]

theorem nesting_write_le {h : Host} {limit : ℕ} (now : Int)
    (hreadings : ∀ e ∈ h.readings, ((Reading.codec now).write e.2).nesting ≤ limit) :
    ((codec now).write h).nesting ≤ limit + 2 := by
  rw [nesting_write]
  refine Nat.add_le_add_right (Value.memberNesting_le fun m hm => ?_) 2
  obtain ⟨e, he, rfl⟩ := List.mem_map.mp hm
  exact hreadings e he

end Host

namespace Node

/-- A node whose readings are of a kind and stand in key order, and whose date has 64
bits. -/
structure Carries (Q : Reading → Prop) (n : Node) : Prop where
  tabled : Keyed.Ordered n.localHost.readings
  readings : ∀ e ∈ n.localHost.readings, Q e.2
  lastUpdate : Int64Range n.lastUpdate

theorem Carries.imp {P Q : Reading → Prop} (hPQ : ∀ r, P r → Q r) {n : Node} (h : n.Carries P) :
    n.Carries Q :=
  ⟨h.tabled, fun e he => hPQ e.2 (h.readings e he), h.lastUpdate⟩

theorem steady_carries (Q : Reading → Prop) : Steady (Carries Q) := fun _ _ h hm =>
  ⟨h.readings ▸ hm.tabled, h.readings ▸ hm.readings, h.lastUpdate ▸ hm.lastUpdate⟩

theorem isDated_iff {n : Node} : n.isDated = true ↔
    ∀ m ∈ n.subtree, ∀ e ∈ m.localHost.readings, e.2.date.isWritable = true := by
  simp only [isDated, List.all_eq_true]

theorem text?_eq_some {n : Node} {text : String} :
    n.text? = some text ↔ n.isDated = true ∧ n.toText = text := by
  rw [text?, Option.ite_none_right_eq_some, Option.some.injEq]

theorem writable_of_isDated {n : Node} (h : n.Everywhere (Carries Reading.Sized))
    (hdated : n.isDated = true) : n.Everywhere (Carries Reading.Writable) := fun m hm =>
  ⟨(h m hm).tabled, fun e he => ⟨(h m hm).readings e he, isDated_iff.mp hdated m hm e he⟩,
    (h m hm).lastUpdate⟩

theorem isDated_of_writable {n : Node} (h : n.Everywhere (Carries Reading.Writable)) :
    n.isDated = true :=
  isDated_iff.mpr fun m hm e he => ((h m hm).readings e he).written

/-- A node that a text can say, if its children are. -/
abbrev Portable : Node → Prop := Carries Reading.Portable

theorem steady_portable : Steady Portable := steady_carries Reading.Portable

theorem steady_enabled : Steady (fun m => m.disabled = []) :=
  fun _ _ h hm => h.disabled.trans hm

/-! ## Values -/

theorem childMembers_eq (children : List (String × Node)) :
    childMembers children = Keyed.mapValues toValue children := by
  induction children with
  | nil => rfl
  | cons e rest ih =>
    obtain ⟨key, child⟩ := e
    rw [childMembers, ih]
    rfl

theorem toValue_eq (n : Node) : n.toValue = .object
    [("uuid", .string n.uuid), ("version", .string n.version), ("hostname", .string n.hostname),
      ("is_alive", .bool n.isAlive), ("global_status", .int n.globalStatus),
      ("global_message", .string n.globalMessage), ("local_host", (Host.codec 0).write n.localHost),
      ("children", .object (Keyed.mapValues toValue n.children)),
      ("last_update", .int n.lastUpdate)] := by
  obtain ⟨info, children⟩ := n
  rw [toValue, childMembers_eq]

theorem nesting_toValue_le {n : Node} {limit : ℕ} : n.toValue.nesting ≤ limit ↔
    ((Host.codec 0).write n.localHost).nesting + 1 ≤ limit ∧
      ∀ e ∈ n.children, e.2.toValue.nesting + 2 ≤ limit := by
  have htwo : 2 ≤ ((Host.codec 0).write n.localHost).nesting := by
    rw [Host.nesting_write]
    exact Nat.le_add_left 2 _
  have hvalue : n.toValue.nesting = max ((Host.codec 0).write n.localHost).nesting
      (Value.memberNesting (Keyed.mapValues toValue n.children) + 1) + 1 := by
    rw [toValue_eq]
    simp [Value.nesting, Value.memberNesting, Value.int]
  rw [hvalue]
  constructor
  · intro h
    refine ⟨by omega, fun e he => ?_⟩
    have hmem : (e.1, e.2.toValue) ∈ Keyed.mapValues toValue n.children := List.mem_map_of_mem he
    have hlt : e.2.toValue.nesting < _ := Value.nesting_member_lt hmem
    rw [Value.nesting] at hlt
    omega
  · intro h
    obtain ⟨hhost, hchildren⟩ := h
    have hle : Value.memberNesting (Keyed.mapValues toValue n.children) ≤ limit - 2 := by
      refine Value.memberNesting_le fun m hm => ?_
      obtain ⟨e, he, rfl⟩ := List.mem_map.mp hm
      exact Nat.le_sub_of_add_le (hchildren e he)
    omega

/-- What a tree's nesting depends on: no deeper are trees with such hosts and children. -/
theorem nesting_toValue_mono {n m : Node} (hreadings : n.localHost.readings = m.localHost.readings)
    (hchildren : ∀ e ∈ n.children, ∃ d ∈ m.children, e.2.toValue.nesting ≤ d.2.toValue.nesting) :
    n.toValue.nesting ≤ m.toValue.nesting := by
  obtain ⟨hhost, hbelow⟩ := nesting_toValue_le.mp (Nat.le_refl m.toValue.nesting)
  refine nesting_toValue_le.mpr ⟨?_, fun e he => ?_⟩
  · rw [Host.nesting_write, hreadings, ← Host.nesting_write]
    exact hhost
  · obtain ⟨d, hd, hle⟩ := hchildren e he
    exact Nat.le_trans (Nat.add_le_add_right hle 2) (hbelow d hd)

theorem height_le_nesting (n : Node) : n.height ≤ n.toValue.nesting := by
  induction n using induct with
  | step n ih =>
    obtain ⟨hhost, hbelow⟩ := nesting_toValue_le.mp (Nat.le_refl n.toValue.nesting)
    rw [height_eq]
    have hheights : heights n.children ≤ n.toValue.nesting - 1 := by
      refine heights_le_iff.mpr fun e he => ?_
      have hchild := ih e he
      have hle := hbelow e he
      omega
    omega

theorem nesting_rollup (n : Node) : n.rollup.toValue.nesting ≤ n.toValue.nesting := by
  induction n using induct with
  | step n ih =>
    refine nesting_toValue_mono (congrArg (fun i => i.localHost.readings) (rollup_own n))
      fun e he => ?_
    rw [rollup_children, Keyed.mapValues, List.mem_map] at he
    obtain ⟨d, hd, rfl⟩ := he
    exact ⟨d, hd, ih d hd⟩

theorem nesting_normalize (n : Node) : n.normalize.toValue.nesting ≤ n.toValue.nesting := by
  induction n using induct with
  | step n ih =>
    rw [normalize_eq]
    refine Nat.le_trans (nesting_rollup _) (nesting_toValue_mono rfl fun e he => ?_)
    rcases mem_normalizeAll he with he | ⟨d, hd, he⟩
    · exact absurd he List.not_mem_nil
    · exact ⟨d, hd, he ▸ ih d hd⟩

theorem nesting_keepLevels (depth : ℕ) (n : Node) :
    (keepLevels depth n).toValue.nesting ≤ n.toValue.nesting := by
  induction depth generalizing n with
  | zero => exact nesting_toValue_mono rfl fun e he => absurd he List.not_mem_nil
  | succ depth ih =>
    refine nesting_toValue_mono rfl fun e he => ?_
    obtain ⟨d, hd, rfl⟩ := List.mem_map.mp he
    exact ⟨d, hd, ih d.2⟩

theorem nesting_truncate (depth : Int) (n : Node) :
    (n.truncate depth).toValue.nesting ≤ n.toValue.nesting := by
  rw [truncate]
  split
  · exact Nat.le_refl _
  · exact Nat.le_trans (nesting_rollup _) (nesting_keepLevels _ n)

theorem nesting_settle (depth : Int) (n : Node) :
    (settle depth n).toValue.nesting ≤ n.toValue.nesting :=
  Nat.le_trans (nesting_truncate depth _) (nesting_normalize n)

end Node
end FleetMesh
