/-
Frames in a stream of bytes.

An inbox takes one byte at a time.  Fed with a frame it gives the frame's content with
the last byte and is empty again (`Inbox.feed_encode`).  A stream that does not begin
with a whole frame gives nothing, whatever else it holds: its length or its content is
not all there, or its length is past the limit (`Inbox.silent_or_framed`).  The
length of a frame is read from its first bytes alone, so a stream begins with one
frame at the most (`Frame.encode_append_inj`).
-/
import FleetMesh.Push.Frame

namespace FleetMesh
namespace Push

/-! ## Lengths -/

namespace Frame

theorem header_eq (n : Nat) : header n =
    [UInt8.ofNat (n / 16777216), UInt8.ofNat (n / 65536), UInt8.ofNat (n / 256),
      UInt8.ofNat (n / 1)] := rfl

theorem length_header (n : Nat) : (header n).length = headerSize := rfl

theorem bigEndian_header {n : Nat} (h : n ≤ maxLength) : Der.bigEndian (header n) = n := by
  have hn : n ≤ 16777216 := h
  rw [header_eq]
  simp only [Der.bigEndian, List.foldl_cons, List.foldl_nil, UInt8.toNat_ofNat']
  omega

theorem header_bigEndian (a b c d : UInt8) :
    header (Der.bigEndian [a, b, c, d]) = [a, b, c, d] := by
  have ha := a.toNat_lt
  have hb := b.toNat_lt
  have hc := c.toNat_lt
  have hd := d.toNat_lt
  rw [header_eq]
  simp only [Der.bigEndian, List.foldl_cons, List.foldl_nil, List.cons.injEq, and_true,
    ← UInt8.toNat_inj, UInt8.toNat_ofNat']
  omega

/-- Four bytes are the length that they say. -/
theorem header_of_length {bytes : List UInt8} (h : bytes.length = headerSize) :
    header (Der.bigEndian bytes) = bytes := by
  match bytes, h with
  | [a, b, c, d], _ => exact header_bigEndian a b c d

theorem encode?_eq_some {payload bytes : List UInt8} (h : encode? payload = some bytes) :
    payload.length ≤ maxLength ∧ bytes = encode payload := by
  rw [encode?] at h
  split at h
  · cases h
  · rename_i hsize
    exact ⟨Nat.not_lt.mp hsize, (Option.some.inj h).symm⟩

/-- A stream begins with one frame at the most. -/
theorem encode_append_inj {p q more rest : List UInt8} (hp : p.length ≤ maxLength)
    (hq : q.length ≤ maxLength) (h : encode p ++ more = encode q ++ rest) :
    p = q ∧ more = rest := by
  simp only [encode, List.append_assoc] at h
  obtain ⟨hheader, h⟩ := List.append_inj h rfl
  have hlength : p.length = q.length := by
    rw [← bigEndian_header hp, hheader, bigEndian_header hq]
  exact List.append_inj h hlength

end Frame

/-! ## Feeding -/

namespace Inbox

/-- Takes bytes one after another, and gives the frames that they complete. -/
def feed (i : Inbox) : List UInt8 → Inbox × List (List UInt8)
  | [] => (i, [])
  | b :: rest =>
    (((i.take b).1.feed rest).1, (i.take b).2.toList ++ ((i.take b).1.feed rest).2)

theorem feed_append (i : Inbox) (p q : List UInt8) :
    i.feed (p ++ q) = (((i.feed p).1.feed q).1, (i.feed p).2 ++ ((i.feed p).1.feed q).2) := by
  induction p generalizing i with
  | nil => rfl
  | cons b p ih => simp only [List.cons_append, feed, ih, List.append_assoc]

/-- Within the length nothing is complete. -/
theorem feed_length {p q : List UInt8} (h : (p ++ q).length < Frame.headerSize) :
    (length p).feed q = (length (p ++ q), []) := by
  induction q generalizing p with
  | nil => rw [feed, List.append_nil]
  | cons b q ih =>
    rw [List.append_cons] at h
    have hb : (p ++ [b]).length < Frame.headerSize := by
      simp only [List.length_append] at h ⊢
      omega
    have htake : (length p).take b = (length (p ++ [b]), none) := by rw [take, if_pos hb]
    rw [feed, htake, ih h, ← List.append_cons]
    rfl

/-- Within the content nothing is complete. -/
theorem feed_content {left : Nat} {p q : List UInt8} (h : q.length < left) :
    (content left p).feed q = (content (left - q.length) (q.reverse ++ p), []) := by
  induction q generalizing left p with
  | nil => rfl
  | cons b q ih =>
    rw [List.length_cons] at h
    have htake : (content left p).take b = (content (left - 1) (b :: p), none) := by
      rw [take, if_neg (by omega)]
    rw [feed, htake, ih (by omega), List.length_cons, List.reverse_cons, List.append_assoc,
      Nat.sub_sub, Nat.add_comm 1]
    rfl

theorem feed_shut (q : List UInt8) : shut.feed q = (shut, []) := by
  induction q with
  | nil => rfl
  | cons b q ih => rw [feed, take, ih]; rfl

/-- The last byte of the length says what is to come. -/
theorem take_header (p : List UInt8) (b : UInt8) (h : (p ++ [b]).length = Frame.headerSize) :
    (empty.feed p).1.take b = opened (Der.bigEndian (p ++ [b])) ∧ (empty.feed p).2 = [] := by
  have hp : ([] ++ p : List UInt8).length < Frame.headerSize := by
    simp only [List.length_append, List.length_singleton] at h
    rw [List.nil_append]
    omega
  rw [empty, feed_length hp]
  refine ⟨?_, rfl⟩
  simp only [List.nil_append, take]
  rw [if_neg (by omega)]

theorem feed_header {bytes : List UInt8} (h : bytes.length = Frame.headerSize) :
    empty.feed bytes =
      ((opened (Der.bigEndian bytes)).1, (opened (Der.bigEndian bytes)).2.toList) := by
  obtain ⟨p, b, rfl⟩ : ∃ p b, bytes = p ++ [b] :=
    ⟨_, _, (List.dropLast_concat_getLast (List.ne_nil_of_length_eq_add_one h)).symm⟩
  obtain ⟨htake, hnone⟩ := take_header p b h
  rw [feed_append, hnone, feed, htake]
  simp only [feed, List.nil_append, List.append_nil]

/-- All of a frame but its last byte gives nothing, and with that byte the frame is
complete. -/
theorem take_encode {payload init : List UInt8} {last : UInt8}
    (hsize : payload.length ≤ Frame.maxLength) (h : init ++ [last] = Frame.encode payload) :
    (empty.feed init).2 = [] ∧ (empty.feed init).1.take last = (empty, some payload) := by
  have hnumber : Der.bigEndian (Frame.header payload.length) = payload.length :=
    Frame.bigEndian_header hsize
  rcases List.eq_nil_or_concat payload with rfl | ⟨body, b, rfl⟩
  · rw [Frame.encode, List.append_nil] at h
    obtain ⟨htake, hnone⟩ := take_header init last (h ▸ Frame.length_header 0)
    rw [h, hnumber] at htake
    exact ⟨hnone, htake⟩
  · rw [List.concat_eq_append] at hsize hnumber h ⊢
    rw [Frame.encode, ← List.append_assoc] at h
    obtain ⟨rfl, hlast⟩ := List.append_inj' h rfl
    obtain rfl := List.singleton_inj.mp hlast
    have hopened : opened (body ++ [last]).length = (content (body ++ [last]).length [], none) := by
      rw [opened, if_neg (Nat.not_lt.mpr hsize), if_neg (by simp)]
    have hbody : body.length < (body ++ [last]).length := by simp
    rw [feed_append, feed_header (Frame.length_header _), hnumber, hopened, feed_content hbody]
    refine ⟨rfl, ?_⟩
    simp only [take]
    rw [if_pos (by simp), List.append_nil, List.reverse_cons, List.reverse_reverse]

/-- A whole frame is read as what was written. -/
theorem feed_encode {payload : List UInt8} (h : payload.length ≤ Frame.maxLength) :
    empty.feed (Frame.encode payload) = (empty, [payload]) := by
  obtain ⟨init, last, he⟩ : ∃ init last, Frame.encode payload = init ++ [last] :=
    ⟨_, _, (List.dropLast_concat_getLast (by simp [Frame.encode, Frame.header_eq])).symm⟩
  obtain ⟨hnone, htake⟩ := take_encode h he.symm
  rw [he, feed_append, hnone, feed, htake]
  rfl

/-- Frames one after another are read one by one. -/
theorem feed_frames {payloads : List (List UInt8)}
    (h : ∀ payload ∈ payloads, payload.length ≤ Frame.maxLength) :
    empty.feed (payloads.flatMap Frame.encode) = (empty, payloads) := by
  induction payloads with
  | nil => rfl
  | cons payload payloads ih =>
    obtain ⟨hsize, hsizes⟩ := List.forall_mem_cons.mp h
    rw [List.flatMap_cons, feed_append, feed_encode hsize, ih hsizes]
    rfl

/-- A stream that does not begin with a whole frame gives nothing. -/
theorem silent_or_framed (bytes : List UInt8) :
    (empty.feed bytes).2 = [] ∨
      ∃ payload rest, bytes = Frame.encode payload ++ rest ∧ payload.length ≤ Frame.maxLength := by
  by_cases hshort : bytes.length < Frame.headerSize
  · exact Or.inl (congrArg Prod.snd (feed_length (p := []) hshort))
  · obtain ⟨head, rest, rfl, hhead⟩ : ∃ head rest, bytes = head ++ rest ∧
        head.length = Frame.headerSize :=
      ⟨bytes.take Frame.headerSize, _, (List.take_append_drop _ _).symm,
        List.length_take_of_le (Nat.not_lt.mp hshort)⟩
    rw [feed_append, feed_header hhead]
    by_cases hlong : Frame.maxLength < Der.bigEndian head
    · rw [opened, if_pos hlong, feed_shut]
      exact Or.inl rfl
    · by_cases hpart : rest.length < Der.bigEndian head
      · rw [opened, if_neg hlong, if_neg (by omega), feed_content hpart]
        exact Or.inl rfl
      · refine Or.inr ⟨rest.take (Der.bigEndian head), rest.drop (Der.bigEndian head), ?_, ?_⟩
        · rw [Frame.encode, List.length_take_of_le (Nat.not_lt.mp hpart),
            Frame.header_of_length hhead, List.append_assoc, List.take_append_drop]
        · rw [List.length_take_of_le (Nat.not_lt.mp hpart)]
          exact Nat.not_lt.mp hlong

end Inbox
end Push
end FleetMesh
