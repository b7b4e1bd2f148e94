/-
Byte strings read as UTF-8.

`Glyph.ofBytes` cuts a byte string into characters and stray groups: the bytes
that begin no character, each group as long as it agrees with some character.
Reading a text strictly (`decode?`) asks that there be no stray group, reading
it leniently (`decodeLossy`) writes one replacement character for each.  The
reader is an automaton that takes one byte at a time, so it is a fold and has
nothing to look ahead at.
-/
namespace FleetMesh
namespace Text

/-- One unit of a byte string: a character, or `size` bytes that form none. -/
inductive Glyph
  | char (c : Char)
  | stray (size : Nat)
  deriving DecidableEq, Repr

namespace Glyph

def ofString (s : String) : List Glyph :=
  s.toList.map char

/-- How many bytes the glyph stands for. -/
def size : Glyph → Nat
  | char c => c.utf8Size
  | stray n => n

/-- The bytes of a character that has begun: how many were read, how many are to
come, the bits so far, and the bounds on the next byte.  The bounds are what
keeps out overlong forms, surrogates and values past the last code point. -/
structure Sequence where
  read : Nat
  left : Nat
  bits : Nat
  low : Nat
  high : Nat

/-- What the first byte of a glyph says: the glyph, or the sequence it opens. -/
def lead (b : Nat) : Glyph ⊕ Sequence :=
  if b < 0x80 then .inl (char (Char.ofNat b))
  else if b < 0xC2 then .inl (stray 1)
  else if b < 0xE0 then .inr ⟨1, 1, b - 0xC0, 0x80, 0xBF⟩
  else if b = 0xE0 then .inr ⟨1, 2, 0, 0xA0, 0xBF⟩
  else if b = 0xED then .inr ⟨1, 2, 0xD, 0x80, 0x9F⟩
  else if b < 0xF0 then .inr ⟨1, 2, b - 0xE0, 0x80, 0xBF⟩
  else if b = 0xF0 then .inr ⟨1, 3, 0, 0x90, 0xBF⟩
  else if b < 0xF4 then .inr ⟨1, 3, b - 0xF0, 0x80, 0xBF⟩
  else if b = 0xF4 then .inr ⟨1, 3, 4, 0x80, 0x8F⟩
  else .inl (stray 1)

/-- Starts afresh with byte `b`, after the glyphs of `out`, which are the latest
first. -/
def begin (out : List Glyph) (b : Nat) : List Glyph × Option Sequence :=
  match lead b with
  | .inl g => (g :: out, none)
  | .inr s => (out, some s)

/-- One byte more. -/
def step : List Glyph × Option Sequence → UInt8 → List Glyph × Option Sequence
  | (out, none), b => begin out b.toNat
  | (out, some s), b =>
    let n := b.toNat
    if s.low ≤ n ∧ n ≤ s.high then
      let bits := 64 * s.bits + (n - 0x80)
      if s.left ≤ 1 then (char (Char.ofNat bits) :: out, none)
      else (out, some ⟨s.read + 1, s.left - 1, bits, 0x80, 0xBF⟩)
    else begin (stray s.read :: out) n

/-- The glyphs of a byte string. -/
def ofBytes (bytes : List UInt8) : List Glyph :=
  match bytes.foldl step ([], none) with
  | (out, none) => out.reverse
  | (out, some s) => (stray s.read :: out).reverse

/-- The character of a glyph, the replacement character for a stray group. -/
def toChar : Glyph → Char
  | char c => c
  | stray _ => '\uFFFD'

def char? : Glyph → Option Char
  | char c => some c
  | stray _ => none

end Glyph

def bytesOf (s : String) : List UInt8 :=
  s.toUTF8.toList

/-- The text that the bytes encode, if they encode one. -/
def decode? (bytes : List UInt8) : Option String :=
  ((Glyph.ofBytes bytes).mapM Glyph.char?).map String.ofList

/-- The text of the bytes, with a replacement character for each stray group. -/
def decodeLossy (bytes : List UInt8) : String :=
  String.ofList ((Glyph.ofBytes bytes).map Glyph.toChar)

end Text
end FleetMesh
