/-
Events that are read back.

An event is exact if its statuses have the 32 bits of a status, its reading can be
written and has no floats, and no more containers are open in it at once than may be.
What is posted of it is a form with its text, and the text is read back as the event
under whatever clock, so that no two events are posted alike (`payload_round_trip`).

The tag is written first, so everything after it is held, the reading among it.  A
status that moved without a reading has `null` in the place of the name.
-/
import FleetMesh.Alert
import FleetMesh.Proofs.Http.Form
import FleetMesh.Proofs.Json.Exact
import FleetMesh.Proofs.Json.Tagged
import FleetMesh.Proofs.Tree.Reread

namespace FleetMesh

open Json (Codec Doc Field Layout Source Value)

theorem Int32Range.retold {n : Int} (h : Int32Range n) : (Value.int n).Retold := by
  obtain ⟨hlow, hhigh⟩ := h
  exact Value.retold_int (by omega)

theorem Reading.retold_write {r : Reading} (now : Int) (h : r.Portable) (hfree : r.FloatFree) :
    ((codec now).write r).Retold := by
  obtain ⟨members, hwrite, hmembers⟩ := forall_write now r (fun _ => Value.retold_leaf rfl)
    h.status.retold h.exitCode.retold fun v hv => (hfree v hv).retold (h.content v hv).2
  exact hwrite ▸ Value.retold_object hmembers

namespace StatusChange

theorem keeps {c : StatusChange} (hold : Int32Range c.oldStatus) (hnew : Int32Range c.newStatus) :
    StatusChange.codec.Keeps c :=
  Json.Record.keeps (by decide) rfl
    ⟨Field.keeps_required (Codec.keeps_string _),
      Field.keeps_nullable fun name _ => ⟨Codec.keeps_string name, nofun⟩,
      Field.keeps_required (Codec.keeps_int32 hold), Field.keeps_required (Codec.keeps_int32 hnew),
      Field.keeps_required (Codec.keeps_string _),
      Field.keeps_optional (Codec.keeps_list fun name _ => Codec.keeps_string name), trivial⟩

end StatusChange

namespace Event

/-- What a text can say of an event. -/
def Portable : Event → Prop
  | probeAdded _ r | probeRemoved _ r => r.Portable
  | statusChanged c => Int32Range c.oldStatus ∧ Int32Range c.newStatus
  | _ => True

def FloatFree : Event → Prop
  | probeAdded _ r | probeRemoved _ r => r.FloatFree
  | _ => True

/-- An event whose text says all of it. -/
structure Exact (e : Event) : Prop where
  portable : e.Portable
  floatFree : e.FloatFree
  nesting : e.toValue.nesting ≤ Doc.nestingLimit

variable {e : Event} {now : Int} {source : Source}

theorem names_readingRecord (kind : String) (now : Int) :
    (readingRecord kind now).layout.names = ["hostname", "probe"] := rfl

theorem read_readingRecord (kind hostname : String) {r : Reading} (h : r.Portable) (now : Int)
    (source : Source) :
    (readingRecord kind now).read source
        (Doc.ofValue (.object ((readingRecord kind 0).layout.members (hostname, r, ()))))
      = .ok (hostname, r, ()) := by
  have hmembers : (readingRecord kind 0).layout.members (hostname, r, ())
      = (readingRecord kind now).layout.members (hostname, r, ()) := by
    show [("hostname", Value.string hostname), ("probe", (Reading.codec 0).write r)] = _
    rw [Reading.write_clock 0 now]
    rfl
  have hkeeps : (readingRecord kind now).layout.Keeps (hostname, r, ()) :=
    ⟨Field.keeps_required (Codec.keeps_string hostname), Field.keeps_required (r.keeps now h),
      trivial⟩
  rw [hmembers, Json.Record.read_members (by rw [names_readingRecord]; decide) hkeeps]

/-- Without its tag an event is read back by its kind. -/
theorem readKind_written (h : e.Portable) (now : Int) (source : Source) :
    readKind now e.kind source (Doc.ofValue (.object e.members)) = .ok e := by
  cases e with
  | probeAdded hostname r =>
    rw [members, kind, readKind, if_pos rfl, read_readingRecord _ hostname h, Json.ok_map]
  | probeRemoved hostname r =>
    rw [members, kind, readKind, if_neg (by decide), if_pos rfl, read_readingRecord _ hostname h,
      Json.ok_map]
  | statusChanged c =>
    show (StatusChange.codec.read source (Doc.ofValue (StatusChange.codec.write c))).map _ = _
    rw [StatusChange.keeps h.1 h.2 source, Json.ok_map]
  | nodeUp uuid hostname =>
    have hkeeps : upRecord.layout.Keeps (uuid, hostname, ()) :=
      ⟨Field.keeps_required (Codec.keeps_string uuid),
        Field.keeps_required (Codec.keeps_string hostname), trivial⟩
    simp only [members, kind, readKind, String.reduceEq, reduceIte]
    rw [Json.Record.read_members (by decide) hkeeps, Json.ok_map]
  | nodeDown uuid hostname lastMessage =>
    have hkeeps : downRecord.layout.Keeps (uuid, hostname, lastMessage, ()) :=
      ⟨Field.keeps_required (Codec.keeps_string uuid),
        Field.keeps_required (Codec.keeps_string hostname),
        Field.keeps_required (Codec.keeps_string lastMessage), trivial⟩
    simp only [members, kind, readKind, String.reduceEq, reduceIte]
    rw [Json.Record.read_members (by decide) hkeeps, Json.ok_map]
  | notice message =>
    have hkeeps : noticeRecord.layout.Keeps (message, ()) :=
      ⟨Field.keeps_required (Codec.keeps_string message), trivial⟩
    simp only [members, kind, readKind, String.reduceEq, reduceIte]
    rw [Json.Record.read_members (by decide) hkeeps, Json.ok_map]

theorem mem_kinds (e : Event) : e.kind ∈ kinds := by
  cases e <;> simp [kind, kinds]

/-- No member but the first has the tag's name. -/
theorem ne_kind_of_mem_members {m : String × Value} (hm : m ∈ e.members) : m.1 ≠ "kind" := by
  have hnames : ∀ {ts : List Type} (layout : Layout ts) (row : Json.Row ts),
      "kind" ∉ layout.names → m ∈ layout.members row → m.1 ≠ "kind" :=
    fun layout row hkind hm heq => hkind (heq ▸ Layout.mem_names_of_members hm)
  cases e <;> rw [members] at hm <;> exact hnames _ _ (by decide) hm

theorem keeps (h : e.Portable) (now : Int) : (Event.codec now).Keeps e := by
  intro source
  dsimp only [Event.codec, toValue]
  rw [Json.Read.tagged_members (mem_kinds e) fun m hm => ne_kind_of_mem_members hm]
  exact readKind_written h now .held

theorem retold_toValue (h : e.Portable) (hfree : e.FloatFree) : e.toValue.Retold := by
  have hstring : ∀ s, (Value.string s).Retold := fun _ => Value.retold_leaf rfl
  refine Value.retold_object (List.forall_mem_cons.mpr ⟨hstring _, ?_⟩)
  cases e with
  | probeAdded hostname r | probeRemoved hostname r =>
    exact List.forall_mem_cons.mpr ⟨hstring hostname,
      List.forall_mem_singleton.mpr (Reading.retold_write 0 h hfree)⟩
  | statusChanged c =>
    have hprobe : (Codec.string.option.write c.probe).Retold := by
      cases c.probe with
      | none => exact Value.retold_leaf rfl
      | some name => exact hstring name
    have halarming : ((Codec.list .string).write c.alarming).Retold := by
      refine Value.retold_array fun v hv => ?_
      obtain ⟨name, _, rfl⟩ := List.mem_map.mp hv
      exact hstring name
    exact List.forall_mem_cons.mpr ⟨hstring c.hostname, List.forall_mem_cons.mpr ⟨hprobe,
      List.forall_mem_cons.mpr ⟨h.1.retold, List.forall_mem_cons.mpr ⟨h.2.retold,
        List.forall_mem_cons.mpr ⟨hstring c.message,
          List.forall_mem_singleton.mpr halarming⟩⟩⟩⟩⟩
  | nodeUp uuid hostname =>
    exact List.forall_mem_cons.mpr ⟨hstring uuid, List.forall_mem_singleton.mpr (hstring hostname)⟩
  | nodeDown uuid hostname lastMessage =>
    exact List.forall_mem_cons.mpr ⟨hstring uuid, List.forall_mem_cons.mpr ⟨hstring hostname,
      List.forall_mem_singleton.mpr (hstring lastMessage)⟩⟩
  | notice message => exact List.forall_mem_singleton.mpr (hstring message)

theorem Exact.decode_payload (h : e.Exact) (now : Int) :
    Json.decode (Event.codec now).read e.payload = .ok e :=
  ((keeps h.portable now).decode_written
    ⟨retold_toValue h.portable h.floatFree, h.nesting⟩).1

theorem fields_formBody (e : Event) :
    Http.Form.fields e.formBody = [("Notification", e.payload)] := by
  have hname : Http.Form.encode "Notification" = "Notification" := by
    rw [Http.Form.encode, Text.bytesOf_eq]
    rfl
  have hbody : e.formBody
      = Http.Form.encode "Notification" ++ ("=" ++ Http.Form.encode e.payload) := by
    rw [formBody, hname, ← String.append_assoc]
    rfl
  rw [hbody, Http.Form.fields_field]

/-- What is posted of an event is a form with its text, from which it is read back; so
events that are posted alike are the same. -/
theorem payload_round_trip :
    (∀ e : Event, e.Exact →
      (∀ now, Json.decode (Event.codec now).read e.payload = .ok e) ∧
        Http.Form.fields e.formBody = [("Notification", e.payload)]) ∧
      ∀ d e : Event, d.Exact → e.Exact → d.formBody = e.formBody → d = e := by
  refine ⟨fun e h => ⟨h.decode_payload, fields_formBody e⟩, fun d e hd he hbody => ?_⟩
  have hfields := fields_formBody d
  rw [hbody, fields_formBody e] at hfields
  have hpayload : e.payload = d.payload := (Prod.mk.inj (List.cons.inj hfields).1).2
  have hread := he.decode_payload 0
  rw [hpayload, hd.decode_payload 0] at hread
  exact Except.ok.inj hread

/-- A host's status that moved, and the reading that did it. -/
def movedEvent : Event :=
  .statusChanged ⟨"w", none, Status.ok, Status.critical, "\"&\"", ["disk"]⟩

theorem exact_movedEvent : movedEvent.Exact where
  portable := (by decide : Int32Range _ ∧ Int32Range _)
  floatFree := trivial
  nesting := by decide

theorem exact_statedEvent : (probeAdded "web-1" Node.statedReading).Exact where
  portable := Node.portable_statedReading
  floatFree := Node.floatFree_statedReading
  nesting := by decide

set_option maxRecDepth 2000 in
example : movedEvent.payload =
    "\x7b\"kind\":\"StatusChanged\",\"hostname\":\"w\",\"probe\":null,"
      ++ "\"old_status\":100,\"new_status\":300,\"message\":\"\\\"&\\\"\","
      ++ "\"probes_in_error\":[\"disk\"]\x7d" := rfl

theorem movedEvent_round_trip :
    movedEvent.Exact ∧ (probeAdded "web-1" Node.statedReading).Exact ∧
      Json.decode (Event.codec 5).read movedEvent.payload = .ok movedEvent ∧
      Http.Form.fields movedEvent.formBody = [("Notification", movedEvent.payload)] ∧
      Json.decode (Event.codec 5).read (probeAdded "web-1" Node.statedReading).payload
        = .ok (probeAdded "web-1" Node.statedReading) := by
  obtain ⟨hmoved, hfields⟩ := payload_round_trip.1 movedEvent exact_movedEvent
  obtain ⟨hstated, -⟩ := payload_round_trip.1 _ exact_statedEvent
  exact ⟨exact_movedEvent, exact_statedEvent, hmoved 5, hfields, hstated 5⟩

end Event
end FleetMesh
