/-
Forms that are read back.

A byte of a value is written as itself, a space as a plus sign, and everything else as
a percent sign and two digits (`Escape`).  So what was written has no mark of the form
in it, and is decoded byte by byte, whatever follows; a form of one field is read as
that field (`fields_field`).
-/
import FleetMesh.Http.Form
import FleetMesh.Proofs.Text.Blank
import FleetMesh.Proofs.Text.Glyph

namespace FleetMesh
namespace Text

theorem bytesOf_append (s t : String) : bytesOf (s ++ t) = bytesOf s ++ bytesOf t := by
  rw [bytesOf_eq, bytesOf_eq, bytesOf_eq, String.toList_append, List.flatMap_append]

theorem decodeLossy_bytesOf (s : String) : decodeLossy (bytesOf s) = s := by
  rw [decodeLossy, Glyph.ofBytes_bytesOf, Glyph.ofString, List.map_map]
  exact (congrArg String.ofList (List.map_id s.toList)).trans (String.ofList_toList)

end Text

namespace Http

theorem percentDecode_cons {c : UInt8} (h : c ≠ 0x25) (rest : List UInt8) :
    percentDecode (c :: rest) = c :: percentDecode rest := by
  match rest with
  | [] => rfl
  | [_] => rfl
  | _ :: _ :: _ => rw [percentDecode, if_neg h]

theorem percentDecode_pair {a b byte : UInt8} (h : hexPair? a b = some byte) (rest : List UInt8) :
    percentDecode (0x25 :: a :: b :: rest) = byte :: percentDecode rest := by
  rw [percentDecode, if_pos rfl, h]

namespace Form

/-! ## One byte -/

/-- The bytes of what a byte is written as. -/
def escaped (b : UInt8) : List UInt8 := (encodeByte b).flatMap String.utf8EncodeChar

/-- Neither a mark of the form nor the sign for a space. -/
def Unmarked (c : UInt8) : Prop := c ≠ 0x26 ∧ c ≠ 0x3D ∧ c ≠ 0x2B

instance (c : UInt8) : Decidable (Unmarked c) := inferInstanceAs (Decidable (_ ∧ _ ∧ _))

inductive Escape (b : UInt8) : List UInt8 → Prop
  | plain (h : Unmarked b) (hpercent : b ≠ 0x25) : Escape b [b]
  | space (h : b = 0x20) : Escape b [0x2B]
  | digits {high low : UInt8} (h : hexPair? high low = some b) (hhigh : Unmarked high)
    (hlow : Unmarked low) : Escape b [0x25, high, low]

/-- The byte of a digit. -/
def digitByte (n : Nat) : UInt8 := UInt8.ofNat (upperHex n).toNat

theorem digitByte_spec : ∀ n < 16, String.utf8EncodeChar (upperHex n) = [digitByte n] ∧
    Text.hexDigit? (Char.ofNat (digitByte n).toNat) = some n ∧ Unmarked (digitByte n) := by
  decide

theorem hexPair?_digits (b : UInt8) :
    hexPair? (digitByte (b.toNat / 16)) (digitByte (b.toNat % 16)) = some b := by
  have hb : b.toNat < 256 := b.toNat_lt
  obtain ⟨-, hhigh, -⟩ := digitByte_spec (b.toNat / 16) (by omega)
  obtain ⟨-, hlow, -⟩ := digitByte_spec (b.toNat % 16) (by omega)
  have hwhole : 16 * (b.toNat / 16) + b.toNat % 16 = b.toNat := by omega
  rw [hexPair?, hhigh, hlow]
  show some (UInt8.ofNat (16 * (b.toNat / 16) + b.toNat % 16)) = some b
  rw [hwhole, UInt8.ofNat_toNat]

theorem utf8EncodeChar_ascii : ∀ n < 0x80,
    String.utf8EncodeChar (Char.ofNat n) = [UInt8.ofNat n] := by
  decide

/-- What is shown as it is has no meaning in a form. -/
theorem unmarked_of_plain {b : UInt8} (h : isPlain b = true) : Unmarked b ∧ b ≠ 0x25 := by
  refine ⟨⟨?_, ?_, ?_⟩, ?_⟩ <;> rintro rfl <;> exact absurd h (by decide)

theorem escape_escaped (b : UInt8) : Escape b (escaped b) := by
  rw [escaped, encodeByte]
  split
  · rename_i hplain
    have hascii : b.toNat < 0x80 := by
      rw [isPlain, Bool.and_eq_true, decide_eq_true_eq] at hplain
      exact hplain.1
    rw [List.flatMap_cons, utf8EncodeChar_ascii b.toNat hascii, UInt8.ofNat_toNat]
    exact .plain (unmarked_of_plain hplain).1 (unmarked_of_plain hplain).2
  · split
    · rename_i hspace
      exact .space hspace
    · have hb : b.toNat < 256 := b.toNat_lt
      obtain ⟨hhigh, -, hmarks⟩ := digitByte_spec (b.toNat / 16) (by omega)
      obtain ⟨hlow, -, hmarks'⟩ := digitByte_spec (b.toNat % 16) (by omega)
      rw [List.flatMap_cons, List.flatMap_cons, List.flatMap_cons, hhigh, hlow]
      exact .digits (hexPair?_digits b) hmarks hmarks'

/-- What a byte is written as has no mark of the form in it. -/
theorem Escape.unmarked {b : UInt8} {cs : List UInt8} (h : Escape b cs) :
    ∀ c ∈ cs, c ≠ 0x26 ∧ c ≠ 0x3D := by
  intro c hc
  cases h with
  | plain h _ =>
    obtain rfl := List.mem_singleton.mp hc
    exact ⟨h.1, h.2.1⟩
  | space _ =>
    obtain rfl := List.mem_singleton.mp hc
    decide
  | digits _ hhigh hlow =>
    simp only [List.mem_cons, List.not_mem_nil, or_false] at hc
    rcases hc with rfl | rfl | rfl
    · decide
    · exact ⟨hhigh.1, hhigh.2.1⟩
    · exact ⟨hlow.1, hlow.2.1⟩

/-- A plus sign stands for a space. -/
def unplus (b : UInt8) : UInt8 := if b = 0x2B then 0x20 else b

theorem Escape.decoded {b : UInt8} {cs : List UInt8} (h : Escape b cs) (rest : List UInt8) :
    percentDecode ((cs ++ rest).map unplus) = b :: percentDecode (rest.map unplus) := by
  cases h with
  | plain h hpercent =>
    rw [List.singleton_append, List.map_cons, unplus, if_neg h.2.2, percentDecode_cons hpercent]
  | space h =>
    rw [h]
    exact percentDecode_cons (by decide) _
  | @digits high low h hhigh hlow =>
    show percentDecode (0x25 :: unplus high :: unplus low :: rest.map unplus) = _
    rw [unplus, if_neg hhigh.2.2, unplus, if_neg hlow.2.2, percentDecode_pair h]

/-! ## Texts -/

theorem bytesOf_encode (s : String) : Text.bytesOf (encode s) = (Text.bytesOf s).flatMap escaped := by
  rw [Text.bytesOf_eq (encode s), encode, String.toList_ofList, List.flatMap_assoc]
  rfl

theorem percentDecode_escaped (bs : List UInt8) :
    percentDecode ((bs.flatMap escaped).map unplus) = bs := by
  induction bs with
  | nil => rfl
  | cons b rest ih => rw [List.flatMap_cons, (escape_escaped b).decoded, ih]

theorem decode_encode (s : String) : decode (Text.bytesOf (encode s)) = s := by
  rw [bytesOf_encode, decode]
  exact (congrArg Text.decodeLossy (percentDecode_escaped _)).trans (Text.decodeLossy_bytesOf s)

theorem unmarked_encode {s : String} {c : UInt8} (hc : c ∈ Text.bytesOf (encode s)) :
    c ≠ 0x26 ∧ c ≠ 0x3D := by
  rw [bytesOf_encode] at hc
  obtain ⟨b, _, hc⟩ := List.mem_flatMap.mp hc
  exact (escape_escaped b).unmarked c hc

/-- A form of one field is read as that field. -/
theorem fields_field (name s : String) :
    fields (encode name ++ ("=" ++ encode s)) = [(name, s)] := by
  have hbytes : Text.bytesOf (encode name ++ ("=" ++ encode s))
      = Text.bytesOf (encode name) ++ 0x3D :: Text.bytesOf (encode s) := by
    rw [Text.bytesOf_append, Text.bytesOf_append, Text.bytesOf_eq "="]
    rfl
  have hsplit : Text.splitBy (· == 0x26) (Text.bytesOf (encode name ++ ("=" ++ encode s)))
      = [Text.bytesOf (encode name) ++ 0x3D :: Text.bytesOf (encode s)] := by
    rw [hbytes]
    refine Text.splitBy_of_forall fun c hc => ?_
    rw [beq_eq_false_iff_ne]
    rcases List.mem_append.mp hc with hc | hc
    · exact (unmarked_encode hc).1
    · rcases List.mem_cons.mp hc with rfl | hc
      · decide
      · exact (unmarked_encode hc).1
  have hname : (Text.bytesOf (encode name) ++ 0x3D :: Text.bytesOf (encode s)).takeWhile (· != 0x3D)
      = Text.bytesOf (encode name) := by
    rw [List.takeWhile_append_of_pos fun c hc => bne_iff_ne.mpr (unmarked_encode hc).2]
    simp
  rw [fields, hsplit]
  simp [field, hname, decode_encode]

end Form
end Http
end FleetMesh
