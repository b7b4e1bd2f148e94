/-
Texts read back from their bytes.

The reader takes the bytes of a character to that character (`foldl_step_char`),
whatever comes before and after them.  So it reads the bytes of a text as the
characters of the text (`ofBytes_bytesOf`), and no stray group is among them.
-/
import FleetMesh.Text.Glyph

namespace FleetMesh
namespace Text

/-! ## Bytes as a list -/

theorem toList_loop (bytes : ByteArray) (i : Nat) (out : List UInt8) :
    ByteArray.toList.loop bytes i out = out.reverse ++ bytes.data.toList.drop i := by
  induction h : bytes.size - i generalizing i out with
  | zero =>
    have hi : bytes.data.toList.length ≤ i := by
      have hsize : bytes.data.toList.length = bytes.size := rfl
      omega
    rw [ByteArray.toList.loop, if_neg (by omega), List.drop_eq_nil_of_le hi, List.append_nil]
  | succ n ih =>
    have hi : i < bytes.data.toList.length := by
      have hsize : bytes.data.toList.length = bytes.size := rfl
      omega
    have hget : bytes.get! i = bytes.data.toList[i] := by
      rw [ByteArray.get!, getElem!_pos bytes.data i hi, Array.getElem_toList]
    rw [ByteArray.toList.loop, if_pos (by omega), ih (i + 1) _ (by omega), hget,
      List.drop_eq_getElem_cons hi, List.reverse_cons, List.append_assoc, List.singleton_append]

theorem bytesOf_eq (s : String) : bytesOf s = s.toList.flatMap String.utf8EncodeChar := by
  have hbytes : s.toUTF8 = (s.toList.flatMap String.utf8EncodeChar).toByteArray :=
    calc s.toUTF8 = s.toByteArray := String.toUTF8_eq_toByteArray
      _ = (String.ofList s.toList).toByteArray := by rw [String.ofList_toList]
      _ = s.toList.utf8Encode := String.toByteArray_ofList
  rw [bytesOf, hbytes, ByteArray.toList, toList_loop, List.reverse_nil, List.nil_append,
    List.drop_zero, List.toList_data_toByteArray]

/-! ## One character -/

namespace Glyph

theorem lead_two {b : Nat} (h : 0xC2 ≤ b) (h' : b < 0xE0) :
    lead b = .inr ⟨1, 1, b - 0xC0, 0x80, 0xBF⟩ := by
  rw [lead, if_neg (by omega), if_neg (by omega), if_pos h']

/-- The first byte of three, with the bounds that keep out overlong forms and
surrogates. -/
theorem lead_three {b : Nat} (h : 0xE0 ≤ b) (h' : b < 0xF0) :
    lead b = .inr ⟨1, 2, b - 0xE0, if b = 0xE0 then 0xA0 else 0x80,
      if b = 0xED then 0x9F else 0xBF⟩ := by
  rw [lead, if_neg (by omega), if_neg (by omega), if_neg (by omega)]
  by_cases h0 : b = 0xE0
  · subst h0
    rfl
  · by_cases hd : b = 0xED
    · subst hd
      rfl
    · rw [if_neg h0, if_neg hd, if_pos h', if_neg h0, if_neg hd]

/-- The first byte of four, with the bounds that keep out overlong forms and what is
past the last code point. -/
theorem lead_four {b : Nat} (h : 0xF0 ≤ b) (h' : b ≤ 0xF4) :
    lead b = .inr ⟨1, 3, b - 0xF0, if b = 0xF0 then 0x90 else 0x80,
      if b = 0xF4 then 0x8F else 0xBF⟩ := by
  have hb : b = 0xF0 ∨ b = 0xF1 ∨ b = 0xF2 ∨ b = 0xF3 ∨ b = 0xF4 := by omega
  rcases hb with rfl | rfl | rfl | rfl | rfl <;> rfl

theorem step_lead {b : UInt8} {s : Sequence} (out : List Glyph) (h : lead b.toNat = .inr s) :
    step (out, none) b = (out, some s) := by
  rw [step, begin, h]

theorem step_more {b : UInt8} {read left bits low high : Nat} (out : List Glyph)
    (hlow : low ≤ b.toNat) (hhigh : b.toNat ≤ high) :
    step (out, some ⟨read, left + 2, bits, low, high⟩) b =
      (out, some ⟨read + 1, left + 1, 64 * bits + (b.toNat - 0x80), 0x80, 0xBF⟩) := by
  rw [step, if_pos ⟨hlow, hhigh⟩]
  exact if_neg (by show ¬ left + 2 ≤ 1; omega)

theorem step_last {b : UInt8} {read bits low high : Nat} (out : List Glyph)
    (hlow : low ≤ b.toNat) (hhigh : b.toNat ≤ high) :
    step (out, some ⟨read, 1, bits, low, high⟩) b =
      (char (Char.ofNat (64 * bits + (b.toNat - 0x80))) :: out, none) := by
  rw [step, if_pos ⟨hlow, hhigh⟩]
  exact if_pos (Nat.le_refl 1)

variable {a b c d : UInt8}

theorem foldl_step_two (out : List Glyph) (ha : 0xC2 ≤ a.toNat) (ha' : a.toNat < 0xE0)
    (hb : 0x80 ≤ b.toNat) (hb' : b.toNat ≤ 0xBF) :
    [a, b].foldl step (out, none) =
      (char (Char.ofNat (64 * (a.toNat - 0xC0) + (b.toNat - 0x80))) :: out, none) := by
  rw [List.foldl_cons, List.foldl_cons, List.foldl_nil, step_lead out (lead_two ha ha'),
    step_last out hb hb']

theorem foldl_step_three (out : List Glyph) (ha : 0xE0 ≤ a.toNat) (ha' : a.toNat < 0xF0)
    (hb : (if a.toNat = 0xE0 then 0xA0 else 0x80) ≤ b.toNat)
    (hb' : b.toNat ≤ if a.toNat = 0xED then 0x9F else 0xBF)
    (hc : 0x80 ≤ c.toNat) (hc' : c.toNat ≤ 0xBF) :
    [a, b, c].foldl step (out, none) =
      (char (Char.ofNat (64 * (64 * (a.toNat - 0xE0) + (b.toNat - 0x80)) + (c.toNat - 0x80)))
        :: out, none) := by
  rw [List.foldl_cons, List.foldl_cons, List.foldl_cons, List.foldl_nil,
    step_lead out (lead_three ha ha'), step_more out hb hb',
    step_last out hc hc']

theorem foldl_step_four (out : List Glyph) (ha : 0xF0 ≤ a.toNat) (ha' : a.toNat ≤ 0xF4)
    (hb : (if a.toNat = 0xF0 then 0x90 else 0x80) ≤ b.toNat)
    (hb' : b.toNat ≤ if a.toNat = 0xF4 then 0x8F else 0xBF)
    (hc : 0x80 ≤ c.toNat) (hc' : c.toNat ≤ 0xBF) (hd : 0x80 ≤ d.toNat) (hd' : d.toNat ≤ 0xBF) :
    [a, b, c, d].foldl step (out, none) =
      (char (Char.ofNat (64 * (64 * (64 * (a.toNat - 0xF0) + (b.toNat - 0x80))
        + (c.toNat - 0x80)) + (d.toNat - 0x80))) :: out, none) := by
  rw [List.foldl_cons, List.foldl_cons, List.foldl_cons, List.foldl_cons, List.foldl_nil,
    step_lead out (lead_four ha ha'), step_more out hb hb',
    step_more out hc hc', step_last out hd hd']

/-- The bytes of a character are read as the character.  That it is no surrogate and
no overlong form is what the bounds on the second byte ask for. -/
theorem foldl_step_char (ch : Char) (out : List Glyph) :
    (String.utf8EncodeChar ch).foldl step (out, none) = (char ch :: out, none) := by
  have hbyte : ∀ n, n < 256 → (UInt8.ofNat n).toNat = n := fun n hn =>
    UInt8.toNat_ofNat_of_lt hn
  have hvalid : ch.val.toNat < 0xD800 ∨ 0xDFFF < ch.val.toNat ∧ ch.val.toNat < 0x110000 := ch.valid
  have hchar : Char.ofNat ch.val.toNat = ch := Char.ofNat_toNat ch
  rw [String.utf8EncodeChar]
  generalize ch.val.toNat = v at hvalid hchar ⊢
  split
  · have ha := hbyte v (by omega)
    rw [List.foldl_cons, List.foldl_nil, step, begin, lead, ha, if_pos (by omega), hchar]
  · split
    · have ha := hbyte (v / 64 % 0x20 + 0xC0) (by omega)
      have hb := hbyte (v % 0x40 + 0x80) (by omega)
      rw [foldl_step_two out (by omega) (by omega) (by omega) (by omega), ha, hb]
      have hv : 64 * (v / 64 % 0x20 + 0xC0 - 0xC0) + (v % 0x40 + 0x80 - 0x80) = v := by omega
      rw [hv, hchar]
    · split
      · have ha := hbyte (v / 4096 % 0x10 + 0xE0) (by omega)
        have hb := hbyte (v / 64 % 0x40 + 0x80) (by omega)
        have hc := hbyte (v % 0x40 + 0x80) (by omega)
        rw [foldl_step_three out (by omega) (by omega) (by split <;> omega) (by split <;> omega)
          (by omega) (by omega), ha, hb, hc]
        have hv : 64 * (64 * (v / 4096 % 0x10 + 0xE0 - 0xE0) + (v / 64 % 0x40 + 0x80 - 0x80))
            + (v % 0x40 + 0x80 - 0x80) = v := by omega
        rw [hv, hchar]
      · have ha := hbyte (v / 262144 % 0x08 + 0xF0) (by omega)
        have hb := hbyte (v / 4096 % 0x40 + 0x80) (by omega)
        have hc := hbyte (v / 64 % 0x40 + 0x80) (by omega)
        have hd := hbyte (v % 0x40 + 0x80) (by omega)
        rw [foldl_step_four out (by omega) (by omega) (by split <;> omega) (by split <;> omega)
          (by omega) (by omega) (by omega) (by omega), ha, hb, hc, hd]
        have hv : 64 * (64 * (64 * (v / 262144 % 0x08 + 0xF0 - 0xF0)
            + (v / 4096 % 0x40 + 0x80 - 0x80)) + (v / 64 % 0x40 + 0x80 - 0x80))
            + (v % 0x40 + 0x80 - 0x80) = v := by omega
        rw [hv, hchar]

theorem foldl_step_chars (cs : List Char) (out : List Glyph) :
    (cs.flatMap String.utf8EncodeChar).foldl step (out, none) =
      ((cs.map char).reverse ++ out, none) := by
  induction cs generalizing out with
  | nil => rfl
  | cons c cs ih =>
    rw [List.flatMap_cons, List.foldl_append, foldl_step_char, ih, List.map_cons,
      List.reverse_cons, List.append_assoc, List.singleton_append]

theorem ofBytes_bytesOf (s : String) : ofBytes (bytesOf s) = ofString s := by
  rw [ofBytes, bytesOf_eq, foldl_step_chars, List.append_nil]
  exact List.reverse_reverse _

end Glyph

theorem decode?_bytesOf (s : String) : decode? (bytesOf s) = some s := by
  have hchars : ∀ cs : List Char, (cs.map Glyph.char).mapM Glyph.char? = some cs := by
    intro cs
    induction cs with
    | nil => rfl
    | cons c cs ih => rw [List.map_cons, List.mapM_cons, ih]; rfl
  rw [decode?, Glyph.ofBytes_bytesOf, Glyph.ofString, hchars, Option.map_some, String.ofList_toList]

end Text
end FleetMesh
