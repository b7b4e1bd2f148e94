/-
Scanning numerals.

`Numeral.chars` writes the parts of a numeral down.  If they are such as the
grammar allows (`Proper`) and what follows cannot continue a numeral (`Ends`), the
scanner finds the same parts again (`Scan.run_numeral`).
-/
import FleetMesh.Proofs.Json.Scan

namespace FleetMesh
namespace Json

open Text (Glyph)

namespace Numeral

/-- The decimal digits of a natural, the leading one first. -/
def digitsOf (n : Nat) : List Nat :=
  if n < 10 then [n] else digitsOf (n / 10) ++ [n % 10]

theorem toDigits_eq (n : Nat) : Nat.toDigits 10 n = (digitsOf n).map Nat.digitChar := by
  induction n using digitsOf.induct with
  | case1 n h => rw [digitsOf, if_pos h, Nat.toDigits_of_lt_base h]; rfl
  | case2 n h ih =>
    rw [digitsOf, if_neg h, Nat.toDigits_of_base_le (by decide) (Nat.le_of_not_lt h), ih,
      List.map_append]
    rfl

theorem digitsOf_lt {n d : Nat} (h : d ∈ digitsOf n) : d < 10 := by
  induction n using digitsOf.induct with
  | case1 n hn =>
    rw [digitsOf, if_pos hn, List.mem_singleton] at h
    exact h ▸ hn
  | case2 n hn ih =>
    rw [digitsOf, if_neg hn, List.mem_append, List.mem_singleton] at h
    rcases h with h | h
    · exact ih h
    · omega

theorem digitsOf_ne_nil (n : Nat) : digitsOf n ≠ [] := by
  rw [digitsOf]
  split <;> simp

theorem ofDigits_concat (ds : List Nat) (d : Nat) :
    ofDigits (ds ++ [d]) = 10 * ofDigits ds + d := by
  rw [ofDigits, List.foldl_append]
  rfl

theorem ofDigits_digitsOf (n : Nat) : ofDigits (digitsOf n) = n := by
  induction n using digitsOf.induct with
  | case1 n h => rw [digitsOf, if_pos h]; exact Nat.zero_add n
  | case2 n h ih => rw [digitsOf, if_neg h, ofDigits_concat, ih]; omega

/-- A leading zero is the only digit. -/
theorem digitsOf_lead {n : Nat} {ds : List Nat} (h : digitsOf n = 0 :: ds) : ds = [] := by
  induction n using digitsOf.induct generalizing ds with
  | case1 n hn =>
    rw [digitsOf, if_pos hn] at h
    exact (List.cons.inj h).2.symm
  | case2 n hn ih =>
    rw [digitsOf, if_neg hn] at h
    cases hq : digitsOf (n / 10) with
    | nil => exact absurd hq (digitsOf_ne_nil _)
    | cons d rest =>
      rw [hq, List.cons_append] at h
      obtain ⟨rfl, -⟩ := List.cons.inj h
      have hzero : n / 10 = 0 := by
        rw [← ofDigits_digitsOf (n / 10), hq, ih hq]
        rfl
      omega

/-! ## Writing the parts -/

def chars (m : Numeral) : List Char :=
  (if m.negative then ['-'] else []) ++ m.whole.map Nat.digitChar ++
    (match m.fraction with
      | none => []
      | some ds => '.' :: ds.map Nat.digitChar) ++
    (match m.exponent with
      | none => []
      | some (minus, ds) => 'e' :: (if minus then '-' else '+') :: ds.map Nat.digitChar)

/-- One digit or more. -/
def Digits (ds : List Nat) : Prop := ds ≠ [] ∧ ∀ d ∈ ds, d < 10

theorem digits_digitsOf (n : Nat) : Digits (digitsOf n) :=
  ⟨digitsOf_ne_nil n, fun _ h => digitsOf_lt h⟩

/-- The parts are such as the grammar allows. -/
structure Proper (m : Numeral) : Prop where
  whole : Digits m.whole
  /-- A leading zero stands alone. -/
  lead : ∀ ds, m.whole = 0 :: ds → ds = []
  fraction : ∀ ds, m.fraction = some ds → Digits ds
  exponent : ∀ minus ds, m.exponent = some (minus, ds) → Digits ds

end Numeral

/-- What cannot continue a numeral: the end, or one of the marks after a value. -/
def Ends (rest : List Glyph) : Prop :=
  ∀ g ∈ rest.head?, g = .char ',' ∨ g = .char ']' ∨ g = .char '\x7d'

namespace Scan

open Numeral (Digits Proper)

theorem digit?_digitChar {d : Nat} (hd : d < 10) : digit? d.digitChar = some d := by
  have hdigit : d.digitChar.isDigit = true := by rw [Nat.isDigit_digitChar, decide_eq_true hd]
  rw [digit?, if_pos hdigit]
  exact congrArg some (Nat.toNat_digitChar_sub_48_of_lt_ten hd)

theorem run_digit {d : Nat} (hd : d < 10) {place next : Place} {m m' : Numeral}
    (h : addDigit m d place = some (next, m')) (rest : List Glyph) :
    (numeral place m).run (.char d.digitChar :: rest) = (numeral next m').run rest := by
  have hstep : (numeral place m).step (.char d.digitChar) = ([], numeral next m') := by
    simp only [step, numeralStep, digit?_digitChar hd, h]
  exact run_of_step hstep rest

/-- Digits at a place where any number of them may stand.  `grow` is the numeral with the
digits so far, the latest first. -/
theorem run_digits {place : Place} (grow : List Nat → Numeral)
    (hgrow : ∀ d ds, addDigit (grow ds) d place = some (place, grow (d :: ds)))
    {ds : List Nat} (hds : ∀ d ∈ ds, d < 10) (done : List Nat) (rest : List Glyph) :
    (numeral place (grow done)).run (glyphs (ds.map Nat.digitChar) ++ rest)
      = (numeral place (grow (ds.reverse ++ done))).run rest := by
  induction ds generalizing done with
  | nil => rfl
  | cons d ds ih =>
    obtain ⟨hd, hds⟩ := List.forall_mem_cons.mp hds
    rw [List.map_cons, glyphs_cons, List.cons_append, run_digit hd (hgrow d done), ih hds,
      List.reverse_cons, List.append_assoc]
    rfl

/-- Where a numeral may end. -/
def closing : List Place := [.zero, .whole, .fraction, .exponent]

theorem run_close {place : Place} (hplace : place ∈ closing) (m : Numeral) {rest : List Glyph}
    (hrest : Ends rest) :
    (numeral place m).run rest = Token.ofNumeral m :: between.run rest := by
  cases rest with
  | nil =>
    simp only [closing, List.mem_cons, List.not_mem_nil, or_false] at hplace
    rcases hplace with rfl | rfl | rfl | rfl <;> rfl
  | cons g rest =>
    have hclose : numeralStep place m g = closeNumeral m g := by
      simp only [closing, List.mem_cons, List.not_mem_nil, or_false] at hplace
      rcases hrest g rfl with rfl | rfl | rfl <;>
        rcases hplace with rfl | rfl | rfl | rfl <;> rfl
    have hstep : (numeral place m).step g
        = (Token.ofNumeral m :: (start g).1, (start g).2) := by
      rw [step, hclose]
      rfl
    rw [run_of_step hstep, run_cons]
    rfl

theorem step_digit {d : Nat} (hd : d < 10) :
    between.step (.char d.digitChar)
      = ([], numeral (if d = 0 then .zero else .whole) ⟨false, [d], none, none⟩) := by
  have hall : ∀ d < 10, Text.isSeparator d.digitChar = false ∧ d.digitChar ≠ '[' ∧
      d.digitChar ≠ ']' ∧ d.digitChar ≠ '\x7b' ∧ d.digitChar ≠ '\x7d' ∧ d.digitChar ≠ ',' ∧
      d.digitChar ≠ ':' ∧ d.digitChar ≠ '"' ∧ d.digitChar ≠ 'n' ∧ d.digitChar ≠ 't' ∧
      d.digitChar ≠ 'f' ∧ d.digitChar ≠ '-' := by decide
  obtain ⟨h1, h2, h3, h4, h5, h6, h7, h8, h9, h10, h11, h12⟩ := hall d hd
  simp only [step, start, h1, h2, h3, h4, h5, h6, h7, h8, h9, h10, h11, h12, if_false,
    Bool.false_eq_true, digit?_digitChar hd]

/-- The sign and the leading digit. -/
theorem run_lead {d : Nat} (hd : d < 10) (negative : Bool) (rest : List Glyph) :
    between.run (glyphs ((if negative then ['-'] else []) ++ [d.digitChar]) ++ rest)
      = (numeral (if d = 0 then .zero else .whole) ⟨negative, [d], none, none⟩).run rest := by
  cases negative with
  | false => exact run_of_step (step_digit hd) rest
  | true =>
    show between.run (.char '-' :: .char d.digitChar :: rest) = _
    rw [run_of_step (show between.step (.char '-')
      = ([], numeral .sign ⟨true, [], none, none⟩) from rfl), List.nil_append]
    exact run_digit hd rfl rest

theorem run_whole {negative : Bool} {ds : List Nat} (hds : Digits ds)
    (hlead : ∀ rest, ds = 0 :: rest → rest = []) :
    ∃ place, (place = .zero ∨ place = .whole) ∧ ∀ rest,
      between.run (glyphs ((if negative then ['-'] else []) ++ ds.map Nat.digitChar) ++ rest)
        = (numeral place ⟨negative, ds.reverse, none, none⟩).run rest := by
  obtain ⟨hne, hlt⟩ := hds
  cases ds with
  | nil => exact absurd rfl hne
  | cons d ds =>
    obtain ⟨hd, hds⟩ := List.forall_mem_cons.mp hlt
    refine ⟨if d = 0 then .zero else .whole, by split <;> simp, fun rest => ?_⟩
    have hsplit : glyphs ((if negative then ['-'] else []) ++ (d :: ds).map Nat.digitChar) ++ rest
        = glyphs ((if negative then ['-'] else []) ++ [d.digitChar])
          ++ (glyphs (ds.map Nat.digitChar) ++ rest) := by
      simp [glyphs]
    rw [hsplit, run_lead hd]
    by_cases hzero : d = 0
    · subst hzero
      rw [hlead ds rfl]
      rfl
    · rw [if_neg hzero, run_digits (fun ds => ⟨negative, ds, none, none⟩) (fun _ _ => rfl) hds,
        List.reverse_cons]

theorem run_fraction {place : Place} (hplace : place = .zero ∨ place = .whole) {ds : List Nat}
    (hds : Digits ds) (negative : Bool) (whole : List Nat) (rest : List Glyph) :
    (numeral place ⟨negative, whole, none, none⟩).run
        (glyphs ('.' :: ds.map Nat.digitChar) ++ rest)
      = (numeral .fraction ⟨negative, whole, some ds.reverse, none⟩).run rest := by
  obtain ⟨hne, hlt⟩ := hds
  cases ds with
  | nil => exact absurd rfl hne
  | cons d ds =>
    obtain ⟨hd, hds⟩ := List.forall_mem_cons.mp hlt
    have hpoint : (numeral place ⟨negative, whole, none, none⟩).step (.char '.')
        = ([], numeral .point ⟨negative, whole, none, none⟩) := by
      rcases hplace with rfl | rfl <;> rfl
    rw [glyphs_cons, List.cons_append, run_of_step hpoint, List.nil_append, List.map_cons,
      glyphs_cons, List.cons_append, run_digit hd rfl,
      run_digits (fun ds => ⟨negative, whole, some ds, none⟩) (fun _ _ => rfl) hds,
      List.reverse_cons]
    rfl

theorem run_exponent {place : Place} (hplace : place ∈ [Place.zero, .whole, .fraction])
    {ds : List Nat} (hds : Digits ds) (negative : Bool) (whole : List Nat)
    (fraction : Option (List Nat)) (minus : Bool) (rest : List Glyph) :
    (numeral place ⟨negative, whole, fraction, none⟩).run
        (glyphs ('e' :: (if minus then '-' else '+') :: ds.map Nat.digitChar) ++ rest)
      = (numeral .exponent ⟨negative, whole, fraction, some (minus, ds.reverse)⟩).run rest := by
  obtain ⟨hne, hlt⟩ := hds
  cases ds with
  | nil => exact absurd rfl hne
  | cons d ds =>
    obtain ⟨hd, hds⟩ := List.forall_mem_cons.mp hlt
    have hmark : (numeral place ⟨negative, whole, fraction, none⟩).step (.char 'e')
        = ([], numeral .mark ⟨negative, whole, fraction, none⟩) := by
      simp only [List.mem_cons, List.not_mem_nil, or_false] at hplace
      rcases hplace with rfl | rfl | rfl <;> rfl
    have hsign : (numeral .mark ⟨negative, whole, fraction, none⟩).step
        (.char (if minus then '-' else '+'))
        = ([], numeral .markSign ⟨negative, whole, fraction, some (minus, [])⟩) := by
      cases minus <;> rfl
    rw [glyphs_cons, List.cons_append, run_of_step hmark, List.nil_append, glyphs_cons,
      List.cons_append, run_of_step hsign, List.nil_append, List.map_cons, glyphs_cons,
      List.cons_append, run_digit hd rfl,
      run_digits (fun ds => ⟨negative, whole, fraction, some (minus, ds)⟩)
        (fun _ _ => rfl) hds, List.reverse_cons]

theorem ofNumeral_reversed {m : Numeral} {n : Number} (h : m.number = some n) :
    Token.ofNumeral ⟨m.negative, m.whole.reverse, m.fraction.map List.reverse,
      m.exponent.map (fun (minus, ds) => (minus, ds.reverse))⟩ = .leaf (.number n) := by
  obtain ⟨negative, whole, fraction, exponent⟩ := m
  cases fraction <;> cases exponent <;> simp [Token.ofNumeral, h]

/-- A numeral that writes a number is scanned as this number. -/
theorem run_numeral {m : Numeral} (hm : m.Proper) {n : Number} (hn : m.number = some n)
    {rest : List Glyph} (hrest : Ends rest) :
    between.run (glyphs m.chars ++ rest) = .leaf (.number n) :: between.run rest := by
  rw [← ofNumeral_reversed hn]
  obtain ⟨negative, whole, fraction, exponent⟩ := m
  obtain ⟨place, hplace, hwhole⟩ := run_whole hm.whole hm.lead
  have hclosing : place ∈ closing := by
    rcases hplace with rfl | rfl <;> decide
  have hmark : place ∈ [Place.zero, .whole, .fraction] := by
    rcases hplace with rfl | rfl <;> decide
  rw [Numeral.chars]
  simp only [glyphs_append, List.append_assoc]
  rw [← List.append_assoc, ← glyphs_append, hwhole]
  cases fraction with
  | none =>
    cases exponent with
    | none => exact run_close hclosing _ hrest
    | some e =>
      obtain ⟨minus, ds⟩ := e
      rw [glyphs_nil, List.nil_append, run_exponent hmark (hm.exponent minus ds rfl)]
      exact run_close (by decide) _ hrest
  | some fs =>
    rw [run_fraction hplace (hm.fraction fs rfl)]
    cases exponent with
    | none => exact run_close (by decide) _ hrest
    | some e =>
      obtain ⟨minus, ds⟩ := e
      rw [run_exponent (by decide) (hm.exponent minus ds rfl)]
      exact run_close (by decide) _ hrest

end Scan
end Json
end FleetMesh
