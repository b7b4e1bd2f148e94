/-
Numbers and the numerals they are written as.

`Number.numeral` gives the parts of the numeral that a number is written as
(`chars_numeral`).  A number is `Legible` if that numeral writes a number again, its
`reread`.  An integer of 64 bits is legible and comes back as itself
(`reread_int`).  A float is written with an exponent or a point, so it comes back as
a float, but perhaps as a neighbour of itself.
-/
import FleetMesh.Proofs.Json.Numeral
import Mathlib.Tactic.Ring

namespace FleetMesh

open Json (Numeral)
open Json.Numeral (digitsOf Digits)

/-- The parts of the numeral that a decimal is written as. -/
def Decimal.numeral (negative : Bool) (d : Decimal) : Numeral :=
  let ds := digitsOf d.digits
  let place : Int := d.exponent + (ds.length : Int) - 1
  if Json.Number.positional.1 ≤ place ∧ place ≤ Json.Number.positional.2 then
    if place < 0 then ⟨negative, [0], some (List.replicate (-place - 1).toNat 0 ++ ds), none⟩
    else if ds.length ≤ place.toNat + 1 then
      ⟨negative, ds ++ List.replicate (place.toNat + 1 - ds.length) 0, some [0], none⟩
    else ⟨negative, ds.take (place.toNat + 1), some (ds.drop (place.toNat + 1)), none⟩
  else
    ⟨negative, ds.take 1, if ds.length ≤ 1 then none else some (ds.drop 1),
      some (decide (place < 0), digitsOf place.natAbs)⟩

namespace Json
namespace Number

/-- The parts of the numeral that a number is written as. -/
def numeral : Number → Numeral
  | int n => ⟨decide (n < 0), digitsOf n.natAbs, none, none⟩
  | float x =>
    if x.significand = 0 then ⟨x.negative, [0], some [0], none⟩
    else x.shortest.numeral x.negative

theorem chars_numeral : ∀ n : Number, n.numeral.chars = n.chars
  | int n => by
    rw [numeral, Numeral.chars, chars, intChars, ← Numeral.toDigits_eq]
    by_cases h : n < 0 <;> simp [h]
  | float x => by
    have hzero : Nat.digitChar 0 = '0' := rfl
    rw [numeral, chars, floatChars]
    split
    · simp [Numeral.chars]
    · rw [Decimal.numeral]
      simp only [Numeral.toDigits_eq, List.length_map, pointed, zeros]
      split
      · split
        · simp [Numeral.chars]
        · split
          · simp [Numeral.chars, hzero]
          · simp [Numeral.chars]
      · cases hds : digitsOf x.shortest.digits with
        | nil => exact absurd hds (Numeral.digitsOf_ne_nil _)
        | cons d ds =>
          cases ds <;> simp [Numeral.chars] <;> split <;> simp

/-- The numeral that the number is written as writes a number. -/
def Legible (n : Number) : Prop := n.numeral.Proper ∧ n.numeral.number.isSome

/-- The number as it is read back. -/
def reread (n : Number) : Number := n.numeral.number.getD n

theorem Legible.number {n : Number} (h : n.Legible) : n.numeral.number = some n.reread := by
  obtain ⟨m, hm⟩ := Option.isSome_iff_exists.mp h.2
  rw [reread, hm]
  rfl

/-- A number that is legible is scanned as its reread, if what follows cannot continue it. -/
theorem Legible.run {n : Number} (h : n.Legible) {rest : List Text.Glyph} (hrest : Ends rest) :
    Scan.between.run (glyphs n.chars ++ rest) =
      .leaf (.number n.reread) :: Scan.between.run rest := by
  rw [← chars_numeral]
  exact Scan.run_numeral h.1 h.number hrest

end Number

/-! ## What the numerals write -/

namespace Numeral

theorem foldl_digits (n : Nat) (ds : List Nat) :
    ds.foldl (fun n d => 10 * n + d) n = n * 10 ^ ds.length + ofDigits ds := by
  induction ds generalizing n with
  | nil => simp [ofDigits]
  | cons d ds ih =>
    have hd : ofDigits (d :: ds) = d * 10 ^ ds.length + ofDigits ds := by
      rw [← ih d]
      simp [ofDigits]
    rw [List.foldl_cons, ih, hd, List.length_cons, Nat.pow_succ]
    ring

theorem ofDigits_append (ds es : List Nat) :
    ofDigits (ds ++ es) = ofDigits ds * 10 ^ es.length + ofDigits es := by
  rw [ofDigits, List.foldl_append, foldl_digits]
  rfl

theorem ofDigits_zeros (n : Nat) : ofDigits (List.replicate n 0) = 0 := by
  induction n with
  | zero => rfl
  | succ n ih => rw [List.replicate_succ', ofDigits_concat, ih]

theorem ofDigits_lt {ds : List Nat} (h : ∀ d ∈ ds, d < 10) : ofDigits ds < 10 ^ ds.length := by
  induction ds with
  | nil => exact Nat.one_pos
  | cons d ds ih =>
    obtain ⟨hd, hds⟩ := List.forall_mem_cons.mp h
    have hlead : (d + 1) * 10 ^ ds.length ≤ 10 * 10 ^ ds.length :=
      Nat.mul_le_mul_right _ hd
    have hrest := ih hds
    rw [show d :: ds = [d] ++ ds from rfl, ofDigits_append, List.length_append,
      List.length_singleton, Nat.pow_add, show ofDigits [d] = d from Nat.zero_add d]
    rw [Nat.add_mul] at hlead
    omega

/-- Digits that stay within a word are all taken. -/
theorem gather_eq {n : Nat} {ds : List Nat}
    (h : ds.foldl (fun n d => 10 * n + d) n ≤ maxWord) :
    gather n ds = (ds.foldl (fun n d => 10 * n + d) n, 0) := by
  induction ds generalizing n with
  | nil => rfl
  | cons d ds ih =>
    rw [List.foldl_cons] at h
    have hle : 10 * n + d ≤ maxWord := by
      refine Nat.le_trans ?_ h
      rw [foldl_digits]
      exact Nat.le_add_right_of_le (Nat.le_mul_of_pos_right _ (Nat.pow_pos (by decide)))
    rw [gather, if_pos hle, ih h]
    rfl

end Numeral

theorem Number.legible_int {n : Int} (h : -0x8000000000000000 ≤ n ∧ n ≤ 0xffffffffffffffff) :
    (int n).Legible ∧ (int n).reread = int n := by
  have hword : n.natAbs ≤ Numeral.maxWord := by
    rw [Numeral.maxWord]
    omega
  have hgather : Numeral.gather 0 (digitsOf n.natAbs) = (n.natAbs, 0) := by
    have hfold : (digitsOf n.natAbs).foldl (fun n d => 10 * n + d) 0 = n.natAbs :=
      Numeral.ofDigits_digitsOf _
    rw [Numeral.gather_eq (by rwa [hfold]), hfold]
  have hnumber : (int n).numeral.number = some (int n) := by
    simp only [numeral, Numeral.number, hgather]
    by_cases hn : n < 0
    · have hback : -(n.natAbs : Int) = n := by omega
      rw [hback]
      simp [hn]
      omega
    · have hback : (n.natAbs : Int) = n := by omega
      simp [hn, hback]
  have hproper : (int n).numeral.Proper :=
    ⟨Numeral.digits_digitsOf _, fun _ h => Numeral.digitsOf_lead h, fun _ h => (nomatch h),
      fun _ _ h => (nomatch h)⟩
  refine ⟨⟨hproper, by rw [hnumber]; rfl⟩, ?_⟩
  rw [reread, hnumber]
  rfl

end Json
end FleetMesh
