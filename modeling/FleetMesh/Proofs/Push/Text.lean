/-
Messages that are read back.

Every request and every answer comes back as it was from its text, and from the bytes
of its frame (`messages_round_trip`), if its numbers have 64 bits.  What is a text of
its own, as the snapshot of an update, is a string like any other, and bytes are a list
of numbers below 256.  No message opens more than four containers at once.
-/
import FleetMesh.Proofs.Json.Bounded
import FleetMesh.Proofs.Json.Exact
import FleetMesh.Proofs.Json.Tagged
import FleetMesh.Push.Talk

namespace FleetMesh
namespace Push

open Json (Codec Doc Field Source Value)
open Json.Read (variant_alone variant_content)

variable {depth : Nat}

/-! ## Bytes -/

theorem keeps_bytes (bs : List UInt8) : bytes.Keeps bs := by
  refine Codec.keeps_imap (Codec.keeps_list fun n hn => ?_) ?_
  · obtain ⟨b, _, rfl⟩ := List.mem_map.mp hn
    exact Codec.keeps_word8 (Nat.le_of_lt_succ b.toNat_lt)
  · rw [List.map_map]
    exact (List.map_congr_left fun b _ => UInt8.ofNat_toNat).trans (List.map_id bs)

theorem exact_bytes (bs : List UInt8) : (bytes.write bs).Exact (depth + 1) := by
  refine Value.exact_array fun v hv => ?_
  obtain ⟨n, hn, rfl⟩ := List.mem_map.mp hv
  obtain ⟨b, _, rfl⟩ := List.mem_map.mp hn
  have hb : b.toNat < 256 := b.toNat_lt
  exact Value.exact_natural (by omega)

/-! ## Parameters -/

theorem Greeting.keeps (who : Greeting) : Greeting.codec.Keeps who :=
  Json.Record.keeps (by decide) rfl
    ⟨Field.keeps_required (Codec.keeps_string _), Field.keeps_required (Codec.keeps_string _),
      Field.keeps_optional (keeps_bytes _), trivial⟩

theorem Greeting.exact (who : Greeting) : (Greeting.codec.write who).Exact (depth + 2) :=
  Value.exact_object (List.forall_mem_cons.mpr ⟨Value.exact_string _,
    List.forall_mem_cons.mpr ⟨Value.exact_string _,
      List.forall_mem_singleton.mpr (exact_bytes who.signature)⟩⟩)

theorem Credentials.keeps (who : Credentials) : Credentials.codec.Keeps who :=
  Json.Record.keeps (by decide) rfl
    ⟨Field.keeps_required (Codec.keeps_string _), Field.keeps_required (Codec.keeps_string _),
      trivial⟩

theorem Credentials.exact (who : Credentials) : (Credentials.codec.write who).Exact (depth + 1) :=
  Value.exact_object (List.forall_mem_cons.mpr ⟨Value.exact_string _,
    List.forall_mem_singleton.mpr (Value.exact_string _)⟩)

theorem Delivery.keeps (what : Delivery) : Delivery.codec.Keeps what :=
  Json.Record.keeps (by decide) rfl
    ⟨Field.keeps_required (Codec.keeps_string _), Field.keeps_required (Codec.keeps_string _),
      Field.keeps_required (Codec.keeps_string _), trivial⟩

theorem Delivery.exact (what : Delivery) : (Delivery.codec.write what).Exact (depth + 1) :=
  Value.exact_object (List.forall_mem_cons.mpr ⟨Value.exact_string _,
    List.forall_mem_cons.mpr ⟨Value.exact_string _,
      List.forall_mem_singleton.mpr (Value.exact_string _)⟩⟩)

/-! ## Calls -/

namespace Call

theorem mem_names (c : Call) : c.name ∈ names := by
  cases c <;> simp [name, names]

theorem readParams_written {c : Call} {v : Value} (h : c.params? = some v) (source : Source) :
    readParams c.name source (Doc.ofValue v) = .ok c := by
  cases c with
  | getCertificate => cases h
  | register who | getSignature who | hello who =>
    obtain rfl := Option.some.inj h
    simp [readParams, name, who.keeps source, Json.ok_map]
  | update what =>
    obtain rfl := Option.some.inj h
    simp [readParams, name, what.keeps source, Json.ok_map]
  | goodbye who =>
    obtain rfl := Option.some.inj h
    simp [readParams, name, who.keeps source, Json.ok_map]

/-- Only the call that has no parameters is written without them. -/
theorem eq_of_params? {c : Call} (h : c.params? = none) : c = getCertificate := by
  cases c <;> first | rfl | cases h

theorem keeps (c : Call) : Call.codec.Keeps c := by
  intro source
  dsimp only [codec, toValue]
  cases hparams : c.params? with
  | none =>
    obtain rfl := eq_of_params? hparams
    exact Json.Read.Outer.reader_alone (mem_names getCertificate) rfl
  | some v =>
    exact (Json.Read.Outer.reader_content (mem_names c) (by decide) v).trans
      (readParams_written hparams source)

theorem exact (c : Call) : (Call.codec.write c).Exact (depth + 3) := by
  have hparams : ∀ v, c.params? = some v → v.Exact (depth + 2) := by
    intro v hv
    cases c with
    | getCertificate => cases hv
    | register who | getSignature who | hello who => exact Option.some.inj hv ▸ who.exact
    | update what => exact Option.some.inj hv ▸ what.exact
    | goodbye who => exact Option.some.inj hv ▸ who.exact
  refine Value.exact_object (List.forall_mem_cons.mpr ⟨Value.exact_string _, fun m hm => ?_⟩)
  obtain ⟨v, hv, rfl⟩ := Option.map_eq_some_iff.mp (Option.mem_toList.mp hm)
  exact hparams v hv

end Call

/-! ## Answers -/

theorem exact_named {v : Value} (name : String) (h : v.Exact depth) :
    (named name v).Exact (depth + 1) :=
  Value.exact_object (List.forall_mem_singleton.mpr h)

theorem Reply.keeps (r : Reply) : Reply.codec.Keeps r := by
  intro source
  dsimp only [Reply.codec]
  cases r with
  | ack => exact variant_alone (by decide : "Ack" ∈ names)
  | certificate pem => exact variant_content (by decide : "Certificate" ∈ names) (.string pem)
  | signature bs =>
    refine (variant_content (by decide : "Signature" ∈ names) (bytes.write bs)).trans ?_
    show (bytes.read source _).map signature = _
    rw [keeps_bytes bs source, Json.ok_map]
  | token t => exact variant_content (by decide : "Token" ∈ names) (.string t)

theorem Reply.exact (r : Reply) : (Reply.codec.write r).Exact (depth + 2) := by
  cases r with
  | ack => exact Value.exact_string "Ack"
  | certificate pem => exact exact_named "Certificate" (Value.exact_string pem)
  | signature bs => exact exact_named "Signature" (exact_bytes bs)
  | token t => exact exact_named "Token" (Value.exact_string t)

namespace Failure

/-- The size of a list has 64 bits. -/
def Sized : Failure → Prop
  | full limit => limit ≤ 0xffffffffffffffff
  | _ => True

theorem keeps {f : Failure} (h : f.Sized) : Failure.codec.Keeps f := by
  intro source
  dsimp only [codec]
  cases f with
  | waiting => exact variant_alone (by decide : "Waiting" ∈ names)
  | notAllowed => exact variant_alone (by decide : "NotAllowed" ∈ names)
  | full limit =>
    refine (variant_content (by decide : "CapacityExceeded" ∈ names) (.int limit)).trans ?_
    show (readLimit source (Doc.ofValue (.int limit))).map full = _
    rw [readLimit, Codec.read_natural h, Json.ok_map]
  | undecodable why =>
    exact variant_content (by decide : "CannotDecode" ∈ names) (.string why)
  | invalid why => exact variant_content (by decide : "InvalidRequest" ∈ names) (.string why)
  | internal why => exact variant_content (by decide : "Internal" ∈ names) (.string why)

theorem exact {f : Failure} (h : f.Sized) : (Failure.codec.write f).Exact (depth + 1) := by
  cases f with
  | waiting => exact Value.exact_string "Waiting"
  | notAllowed => exact Value.exact_string "NotAllowed"
  | full limit => exact exact_named "CapacityExceeded" (Value.exact_natural h)
  | undecodable why => exact exact_named "CannotDecode" (Value.exact_string why)
  | invalid why => exact exact_named "InvalidRequest" (Value.exact_string why)
  | internal why => exact exact_named "Internal" (Value.exact_string why)

end Failure

variable {result : Except Failure Reply}

theorem keeps_outcome (h : ∀ f, result = .error f → f.Sized) : outcome.Keeps result := by
  intro source
  dsimp only [outcome]
  cases result with
  | ok reply =>
    refine (variant_content (by decide : "Ok" ∈ ["Ok", "Err"]) (Reply.codec.write reply)).trans ?_
    show (Reply.codec.read source _).map Except.ok = _
    rw [reply.keeps source, Json.ok_map]
  | error failure =>
    refine (variant_content (by decide : "Err" ∈ ["Ok", "Err"]) (Failure.codec.write failure)).trans ?_
    show (Failure.codec.read source _).map Except.error = _
    rw [Failure.keeps (h failure rfl) source, Json.ok_map]

theorem exact_outcome (h : ∀ f, result = .error f → f.Sized) :
    (outcome.write result).Exact (depth + 3) := by
  cases result with
  | ok reply => exact exact_named "Ok" reply.exact
  | error failure => exact exact_named "Err" (Failure.exact (h failure rfl))

/-! ## Messages -/

theorem Request.keeps {r : Request} (h : r.id ≤ 0xffffffffffffffff) : Request.codec.Keeps r :=
  Json.Record.keeps (by decide) rfl
    ⟨Field.keeps_required (Codec.keeps_word64 h), Field.keeps_required r.call.keeps, trivial⟩

theorem Request.exact {r : Request} (h : r.id ≤ 0xffffffffffffffff) :
    (Request.codec.write r).Exact (depth + 4) :=
  Value.exact_object (List.forall_mem_cons.mpr ⟨Value.exact_natural h,
    List.forall_mem_singleton.mpr r.call.exact⟩)

theorem Response.keeps {r : Response} (h : r.id ≤ 0xffffffffffffffff)
    (hresult : ∀ f, r.result = .error f → f.Sized) : Response.codec.Keeps r :=
  Json.Record.keeps (by decide) rfl
    ⟨Field.keeps_required (Codec.keeps_word64 h), Field.keeps_required (keeps_outcome hresult),
      trivial⟩

theorem Response.exact {r : Response} (h : r.id ≤ 0xffffffffffffffff)
    (hresult : ∀ f, r.result = .error f → f.Sized) : (Response.codec.write r).Exact (depth + 4) :=
  Value.exact_object (List.forall_mem_cons.mpr ⟨Value.exact_natural h,
    List.forall_mem_singleton.mpr (exact_outcome hresult)⟩)

/-- The number of a request that was read has 64 bits. -/
theorem Request.id_le {frame : List UInt8} {r : Request} (h : Request.ofFrame frame = .ok r) :
    r.id ≤ 0xffffffffffffffff := by
  obtain ⟨⟨id, call, _⟩, hrow, rfl⟩ := Json.map_eq_ok.mp (Json.read_of_decodeGlyphs h)
  have hmeets : Request.record.layout.Meets (fun _ => True)
      ((fun id => id ≤ 0xffffffffffffffff), (fun _ => True), ()) :=
    ⟨.required (fun _ _ _ _ hread => Json.le_of_natural hread), .any, trivial⟩
  exact (Json.Record.read_all hmeets (fun _ _ => trivial) hrow).1

/-- Every request, and every answer, is read back from its text and from the bytes of its
frame. -/
theorem messages_round_trip :
    (∀ r : Request, r.id ≤ 0xffffffffffffffff →
      Json.decode Request.codec.read r.render = .ok r ∧
        Request.ofFrame (Text.bytesOf r.render) = .ok r) ∧
      ∀ r : Response, r.id ≤ 0xffffffffffffffff → (∀ f, r.result = .error f → f.Sized) →
        Json.decode Response.codec.read r.render = .ok r ∧
          Json.decodeBytes Response.codec.read (Text.bytesOf r.render) = .ok r :=
  ⟨fun _ h => (Request.keeps h).decode_written (Request.exact h),
    fun _ h hresult => (Response.keeps h hresult).decode_written (Response.exact h hresult)⟩

/-- A call with a text in it that has a quote, a backslash and a line break to escape. -/
def escapedUpdate : Request :=
  ⟨0xffffffffffffffff, .update ⟨"u-1", "t", "\x7b\"a\\b\":\"\n\"\x7d"⟩⟩

def crowdedAnswer : Response := ⟨7, .error (.full 0)⟩

theorem escapedUpdate_round_trip :
    escapedUpdate.id ≤ 0xffffffffffffffff ∧
      escapedUpdate.render = "\x7b\"id\":18446744073709551615,\"call\":\x7b\"method\":\"Update\","
        ++ "\"params\":\x7b\"uuid\":\"u-1\",\"token\":\"t\","
        ++ "\"node\":\"\x7b\\\"a\\\\b\\\":\\\"\\n\\\"\x7d\"\x7d\x7d\x7d" ∧
      Json.decode Request.codec.read escapedUpdate.render = .ok escapedUpdate ∧
      Request.ofFrame (Text.bytesOf escapedUpdate.render) = .ok escapedUpdate ∧
      crowdedAnswer.id ≤ 0xffffffffffffffff ∧
      (∀ f, crowdedAnswer.result = .error f → f.Sized) ∧
      Json.decode Response.codec.read crowdedAnswer.render = .ok crowdedAnswer ∧
      Json.decodeBytes Response.codec.read (Text.bytesOf crowdedAnswer.render)
        = .ok crowdedAnswer := by
  have hid : escapedUpdate.id ≤ 0xffffffffffffffff := by decide
  have hanswer : crowdedAnswer.id ≤ 0xffffffffffffffff := by decide
  have hsized : ∀ f, crowdedAnswer.result = .error f → f.Sized := by
    intro f hf
    obtain rfl := Except.error.inj hf
    exact Nat.zero_le _
  obtain ⟨htext, hframe⟩ := messages_round_trip.1 escapedUpdate hid
  obtain ⟨hanswered, hbytes⟩ := messages_round_trip.2 crowdedAnswer hanswer hsized
  exact ⟨hid, rfl, htext, hframe, hanswer, hsized, hanswered, hbytes⟩

end Push
end FleetMesh
