/-
The tokens of a JSON text.

The scanner takes one glyph at a time, so it is a fold over the text and each
state says what has been read of the token at hand.  A text is cut into glyphs
before, because a string may hold bytes that are no character: such a string is
passed over like any other and only reading it fails.
-/
import FleetMesh.Json.Doc
import FleetMesh.Json.Numeral
import FleetMesh.Text.Blank
import FleetMesh.Text.Glyph

namespace FleetMesh
namespace Json

open Text (Glyph)

/-- The place in a numeral: what was read last. -/
inductive Place
  | sign
  | zero
  | whole
  | point
  | fraction
  | mark
  | markSign
  | exponent
  deriving DecidableEq, Repr

/-- Whether a string being scanned can still be read.  `stray` bytes are noticed
at the closing quotation mark, half a surrogate pair (`split`) where it stands. -/
inductive Standing
  | sound
  | stray
  | split
  deriving DecidableEq, Repr

/-- A string being scanned: its characters, the latest first; whether it can be
read; and the first half of a surrogate pair, if that was the last thing read. -/
structure Partial where
  text : List Char
  standing : Standing
  half : Option Nat
  deriving Repr

/-- What has been read of the token at hand. -/
inductive Scan
  | between
  | word (rest : List Char) (d : Doc)
  | numeral (place : Place) (m : Numeral)
  | string (p : Partial)
  | escape (p : Partial)
  /-- After a backslash and a `u`: how many bytes are to come, and the value so
  far unless a byte was no digit.  Bytes are counted, for a text that ends within
  the four is reported as ended. -/
  | hex (p : Partial) (left : Nat) (value : Option Nat)
  /-- A token broke off; nothing after it is read. -/
  | stopped
  deriving Repr

namespace Token

def null : Token := .leaf .null

/-- The token of a numeral that is complete. -/
def ofNumeral (m : Numeral) : Token :=
  let inOrder : Numeral := ⟨m.negative, m.whole.reverse, m.fraction.map List.reverse,
    m.exponent.map (fun (s, ds) => (s, ds.reverse))⟩
  match inOrder.number with
  | some n => .leaf (.number n)
  | none => .leaf .garbled

/-- The token of a string that is complete. -/
def ofPartial (p : Partial) : Token :=
  match p.standing, p.half with
  | .sound, none => .leaf (.string (String.ofList p.text.reverse))
  | _, _ => .leaf .garbled

end Token

namespace Partial

/-- A first half that is not followed by a second one splits its pair. -/
def settled (p : Partial) : Partial :=
  if p.half.isSome then { p with standing := .split, half := none } else p

def add (p : Partial) (c : Char) : Partial :=
  let p := settled p
  { p with text := c :: p.text }

def isFirstHalf (n : Nat) : Bool := 0xD800 ≤ n && n ≤ 0xDBFF
def isSecondHalf (n : Nat) : Bool := 0xDC00 ≤ n && n ≤ 0xDFFF

/-- The character of a surrogate pair. -/
def joinHalves (first second : Nat) : Char :=
  Char.ofNat (0x10000 + (first - 0xD800) * 0x400 + (second - 0xDC00))

/-- A unit written with four digits. -/
def addUnit (p : Partial) (n : Nat) : Partial :=
  match p.half with
  | some first =>
    if isSecondHalf n then { p with text := joinHalves first n :: p.text, half := none }
    else { p with standing := .split, half := none }
  | none =>
    if isFirstHalf n then { p with half := some n }
    else if isSecondHalf n then { p with standing := .split }
    else { p with text := Char.ofNat n :: p.text }

end Partial

namespace Scan

/-- A token that breaks off the same way for every reader. -/
def broken (quoted : Bool) (fault : Fault) : List Token × Scan :=
  ([.leaf (.broken quoted fault fault)], .stopped)

/-- A string that breaks off.  Who reads it meets a split pair before the end. -/
def brokenString (p : Partial) (fault : Fault) : List Token × Scan :=
  let read := if p.standing = .split then .malformed else fault
  ([.leaf (.broken true read fault)], .stopped)

def digit? (c : Char) : Option Nat :=
  if c.isDigit then some (c.toNat - '0'.toNat) else none

/-- A glyph where a token may begin. -/
def start : Glyph → List Token × Scan
  | .stray _ => ([.leaf .astray], .stopped)
  | .char c =>
    if Text.isSeparator c then ([], between)
    else if c = '[' then ([.openArray], between)
    else if c = ']' then ([.closeArray], between)
    else if c = '\x7b' then ([.openObject], between)
    else if c = '\x7d' then ([.closeObject], between)
    else if c = ',' then ([.comma], between)
    else if c = ':' then ([.colon], between)
    else if c = '"' then ([], string ⟨[], .sound, none⟩)
    else if c = 'n' then ([], word ['u', 'l', 'l'] .null)
    else if c = 't' then ([], word ['r', 'u', 'e'] (.bool true))
    else if c = 'f' then ([], word ['a', 'l', 's', 'e'] (.bool false))
    else if c = '-' then ([], numeral .sign ⟨true, [], none, none⟩)
    else match digit? c with
      | some d => ([], numeral (if d = 0 then .zero else .whole) ⟨false, [d], none, none⟩)
      | none => ([.leaf .astray], .stopped)

/-- The numeral ends before `g`. -/
def closeNumeral (m : Numeral) (g : Glyph) : List Token × Scan :=
  let (tokens, next) := start g
  (Token.ofNumeral m :: tokens, next)

/-- A digit more, where one may stand. -/
def addDigit (m : Numeral) (d : Nat) : Place → Option (Place × Numeral)
  | .sign => some (if d = 0 then .zero else .whole, { m with whole := [d] })
  | .zero => none
  | .whole => some (.whole, { m with whole := d :: m.whole })
  | .point | .fraction => some (.fraction, { m with fraction := some (d :: m.fraction.getD []) })
  | .mark | .markSign | .exponent =>
    let (minus, ds) := m.exponent.getD (false, [])
    some (.exponent, { m with exponent := some (minus, d :: ds) })

/-- A glyph that is no digit, within a numeral or after it. -/
def afterDigits (place : Place) (m : Numeral) (g : Glyph) : List Token × Scan :=
  match place with
  | .sign | .point | .markSign => broken false .malformed
  | .mark =>
    if g = .char '+' then ([], numeral .markSign { m with exponent := some (false, []) })
    else if g = .char '-' then ([], numeral .markSign { m with exponent := some (true, []) })
    else broken false .malformed
  | .zero | .whole | .fraction | .exponent =>
    if g = .char '.' ∧ (place = .zero ∨ place = .whole) then ([], numeral .point m)
    else if (g = .char 'e' ∨ g = .char 'E') ∧ place ≠ .exponent then ([], numeral .mark m)
    else closeNumeral m g

def numeralStep (place : Place) (m : Numeral) (g : Glyph) : List Token × Scan :=
  match g with
  | .char c => match digit? c with
    | some d => match addDigit m d place with
      | some (next, m) => ([], numeral next m)
      | none => broken false .malformed
    | none => afterDigits place m g
  | .stray _ => afterDigits place m g

def stringStep (p : Partial) : Glyph → List Token × Scan
  | .stray _ =>
    let p := p.settled
    ([], string { p with standing := if p.standing = .split then .split else .stray })
  | .char c =>
    if c = '"' then ([Token.ofPartial p], between)
    else if c = '\\' then ([], escape p)
    else if c.toNat < 0x20 then brokenString p .malformed
    else ([], string (p.add c))

/-- The character that a letter after a backslash stands for. -/
def escaped? (c : Char) : Option Char :=
  if c = '"' ∨ c = '\\' ∨ c = '/' then some c
  else if c = 'b' then some '\x08'
  else if c = 'f' then some '\x0c'
  else if c = 'n' then some '\n'
  else if c = 'r' then some '\r'
  else if c = 't' then some '\t'
  else none

def escapeStep (p : Partial) : Glyph → List Token × Scan
  | .stray _ => brokenString p .malformed
  | .char c =>
    if c = 'u' then ([], hex p 4 (some 0))
    else match escaped? c with
      | some d => ([], string (p.add d))
      | none => brokenString p .malformed

def hexStep (p : Partial) (left : Nat) (value : Option Nat) (g : Glyph) : List Token × Scan :=
  let value := match g with
    | .char c => value.bind (fun n => (Text.hexDigit? c).map (16 * n + ·))
    | .stray _ => none
  if left ≤ g.size then
    match value with
    | some n => ([], string (p.addUnit n))
    | none => brokenString p .malformed
  else ([], hex p (left - g.size) value)

/-- One glyph more: the tokens it completes, and what is read of the next. -/
def step : Scan → Glyph → List Token × Scan
  | between, g => start g
  | word rest d, g => match rest with
    | [] => ([], .stopped)
    | [c] => if g = .char c then ([.leaf d], between) else broken false .malformed
    | c :: rest => if g = .char c then ([], word rest d) else broken false .malformed
  | numeral place m, g => numeralStep place m g
  | string p, g => stringStep p g
  | escape p, g => escapeStep p g
  | hex p left value, g => hexStep p left value g
  | stopped, _ => ([], stopped)

/-- The text ends.  A numeral that lacks a digit has ended early for who reads
it and is malformed for who passes over it. -/
def finish : Scan → List Token
  | between | stopped => []
  | word .. => [.leaf (.broken false .truncated .truncated)]
  | numeral place m => match place with
    | .sign | .point | .mark | .markSign => [.leaf (.broken false .truncated .malformed)]
    | .zero | .whole | .fraction | .exponent => [Token.ofNumeral m]
  | string p | escape p | hex p .. => (brokenString p .truncated).1

/-- One glyph more, with the tokens so far, the latest first. -/
def advance : List Token × Scan → Glyph → List Token × Scan
  | (tokens, scan), g =>
    let (more, next) := scan.step g
    (more.reverse ++ tokens, next)

end Scan

/-- The tokens of a text. -/
def Token.ofGlyphs (glyphs : List Glyph) : List Token :=
  let (tokens, scan) := glyphs.foldl Scan.advance ([], .between)
  (scan.finish.reverse ++ tokens).reverse

/-- The first value of a text, and whether anything follows it. -/
def Doc.ofGlyphs (glyphs : List Glyph) : Doc × Bool :=
  Doc.ofTokens (Token.ofGlyphs glyphs)

end Json
end FleetMesh
