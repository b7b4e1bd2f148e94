/-
What a TOML text writes between its brackets and marks: blanks, strings, numbers
and dates.

A reader takes what it reads off the front of the text and gives the rest.
-/
import FleetMesh.Binary64
import FleetMesh.Text.Hex
import FleetMesh.Timestamp
import FleetMesh.Toml.Value

namespace FleetMesh
namespace Toml

/-- Reads a prefix of a text. -/
abbrev Scan (α : Type) := List Char → Option (α × List Char)

/-! ## Blanks -/

def isSpace (c : Char) : Bool := c = ' ' || c = '\t'

/-- The characters that stand for themselves: all but the control characters other
than the tab. -/
def isPlain (c : Char) : Bool := c = '\t' || (0x20 ≤ c.toNat && c.toNat ≠ 0x7F)

def skipSpaces (cs : List Char) : List Char := cs.dropWhile isSpace

/-- Drops a line end. -/
def dropLineEnd? : List Char → Option (List Char)
  | '\n' :: rest => some rest
  | '\r' :: '\n' :: rest => some rest
  | _ => none

/-- Drops what may follow the contents of a line, and its end. -/
def endLine? (cs : List Char) : Option (List Char) :=
  let rest := match skipSpaces cs with
    | '#' :: comment => comment.dropWhile isPlain
    | rest => rest
  if rest = [] then some [] else dropLineEnd? rest

/-- Drops spaces, line ends and comments. -/
def skipBlank (inComment : Bool) : List Char → List Char
  | [] => []
  | c :: rest =>
    if c = '\n' ∨ (c = '\r' ∧ rest.head? = some '\n') then skipBlank false rest
    else if inComment then (if isPlain c then skipBlank true rest else c :: rest)
    else if isSpace c then skipBlank false rest
    else if c = '#' then skipBlank true rest
    else c :: rest

/-! ## Strings -/

/-- The character of a code point. -/
def scalar? (n : Nat) : Option Char :=
  if n < 0xD800 ∨ (0xDFFF < n ∧ n < 0x110000) then some (Char.ofNat n) else none

/-- The character that a letter after a backslash stands for. -/
def escaped? (c : Char) : Option Char :=
  if c = '"' ∨ c = '\\' then some c
  else if c = 'b' then some '\x08'
  else if c = 'f' then some '\x0c'
  else if c = 'n' then some '\n'
  else if c = 'r' then some '\r'
  else if c = 't' then some '\t'
  else none

/-- Where a string is being read. -/
inductive Place
  /-- Outside of escapes, after some quotation marks that may close it. -/
  | plain (quotes : Nat)
  | escape
  /-- In a code point: how many digits are to come, and the value so far. -/
  | code (left value : Nat)
  /-- After a backslash that ends a line; `broken` once the line has ended. -/
  | fold (broken : Bool)

/-- One character of an escape: the place after it, and the character that it
completes. -/
def escapeStep (c : Char) : Option (Place × Option Char) :=
  if c = 'u' then some (.code 4 0, none)
  else if c = 'U' then some (.code 8 0, none)
  else (escaped? c).map (fun d => (.plain 0, some d))

def codeStep (left value : Nat) (c : Char) : Option (Place × Option Char) := do
  let d ← Text.hexDigit? c
  let value := 16 * value + d
  if left ≤ 1 then return (.plain 0, some (← scalar? value))
  else return (.code (left - 1) value, none)

/-- Reads a string of one line after its opening mark.  `escapes` says whether a
backslash is special, `out` is what was read, the latest first. -/
def lineString (mark : Char) (escapes : Bool) (place : Place) (out : List Char) :
    List Char → Option (String × List Char)
  | [] => none
  | c :: rest =>
    match place with
    | .plain _ | .fold _ =>
      if c = mark then some (String.ofList out.reverse, rest)
      else if escapes ∧ c = '\\' then lineString mark escapes .escape out rest
      else if isPlain c then lineString mark escapes (.plain 0) (c :: out) rest
      else none
    | .escape => do
      let (place, d) ← escapeStep c
      lineString mark escapes place (d.toList ++ out) rest
    | .code left value => do
      let (place, d) ← codeStep left value c
      lineString mark escapes place (d.toList ++ out) rest

/-- How many marks close a string of several lines. -/
def closing : Nat := 3

/-- Reads a string of several lines after its opening marks.  Up to two marks may
stand in it, also before the closing ones.  A line end is a line feed, however it
is written. -/
def blockString (mark : Char) (escapes : Bool) (place : Place) (out : List Char) :
    List Char → Option (String × List Char)
  | [] => match place with
    | .plain quotes => if closing ≤ quotes then some (finish quotes, []) else none
    | _ => none
  | c :: rest =>
    let isBreak := c = '\n' || c = '\r' && rest.head? == some '\n'
    let literal (out : List Char) : Option (String × List Char) :=
      if escapes ∧ c = '\\' then blockString mark escapes .escape out rest
      else if c = '\r' ∧ isBreak then blockString mark escapes (.plain 0) out rest
      else if isPlain c ∨ c = '\n' then blockString mark escapes (.plain 0) (c :: out) rest
      else none
    match place with
    | .plain quotes =>
      if c = mark then
        if quotes + 1 = closing + 2 then some (finish (quotes + 1), rest)
        else blockString mark escapes (.plain (quotes + 1)) out rest
      else if closing ≤ quotes then some (finish quotes, c :: rest)
      else literal (List.replicate quotes mark ++ out)
    | .fold broken =>
      if isSpace c then blockString mark escapes (.fold broken) out rest
      else if isBreak then blockString mark escapes (.fold true) out rest
      else if !broken then none
      else if c = mark then blockString mark escapes (.plain 1) out rest
      else literal out
    | .escape =>
      if isSpace c then blockString mark escapes (.fold false) out rest
      else if isBreak then blockString mark escapes (.fold true) out rest
      else do
        let (place, d) ← escapeStep c
        blockString mark escapes place (d.toList ++ out) rest
    | .code left value => do
      let (place, d) ← codeStep left value c
      blockString mark escapes place (d.toList ++ out) rest
where
  finish (quotes : Nat) : String :=
    String.ofList (List.replicate (quotes - closing) mark ++ out).reverse

/-- A string that begins with a mark; a backslash is special after a double one. -/
def string? (cs : List Char) : Option (String × List Char) :=
  match cs with
  | mark :: a :: b :: rest =>
    let escapes := mark = '"'
    if a = mark ∧ b = mark then
      blockString mark escapes (.plain 0) [] ((dropLineEnd? rest).getD rest)
    else lineString mark escapes (.plain 0) [] (a :: b :: rest)
  | mark :: rest => lineString mark (mark = '"') (.plain 0) [] rest
  | [] => none

/-! ## Numbers -/

def decimal? (c : Char) : Option Nat :=
  if c.isDigit then some (c.toNat - '0'.toNat) else none

/-- A digit of a base. -/
def digitOf (base : Nat) (c : Char) : Option Nat :=
  (Text.hexDigit? c).filter (· < base)

/-- One or more digits, between which single underscores may stand. -/
def digitRun (digit? : Char → Option Nat) : List Char → Option (List Nat × List Char)
  | [] => none
  | c :: rest => do
    let d ← digit? c
    match rest with
    | '_' :: more =>
      let (ds, rest) ← digitRun digit? more
      return (d :: ds, rest)
    | next :: more =>
      if (digit? next).isSome then
        let (ds, rest) ← digitRun digit? (next :: more)
        return (d :: ds, rest)
      else return ([d], next :: more)
    | [] => return ([d], [])

/-- Whether there is a minus sign, and the text after the sign. -/
def sign : List Char → Bool × List Char
  | '-' :: rest => (true, rest)
  | '+' :: rest => (false, rest)
  | cs => (false, cs)

/-- The digits of a whole number, which begin with a zero only if that is all. -/
def wholeDigits (cs : List Char) : Option (List Nat × List Char) :=
  match cs with
  | '0' :: rest => some ([0], rest)
  | cs => digitRun decimal? cs

def ofDigits (base : Nat) (digits : List Nat) : Nat :=
  digits.foldl (fun n d => base * n + d) 0

/-- An integer of 64 bits. -/
def integerOf (negative : Bool) (n : Nat) : Option Value :=
  if n ≤ 0x7fffffffffffffff ∨ (negative ∧ n = 0x8000000000000000) then
    some (.integer (if negative then -(n : Int) else n))
  else none

/-- Whether `digits` times a power of ten is a float.  Powers far from the bounds
are not computed. -/
def fits (digits : List Nat) (e : Int) : Bool :=
  let digits := digits.dropWhile (· == 0)
  let n := ofDigits 10 digits
  let place := (digits.length : Int) + e
  if n = 0 ∨ place < 300 then true
  else if 400 < place then false
  else (Binary64.ofRatio false (n * Nat.pow 10 e.toNat) (Nat.pow 10 (-e).toNat)).isSome

/-- The exponent of a float, 0 if there is none. -/
def exponent (cs : List Char) : Option (Int × List Char) :=
  match cs with
  | c :: rest =>
    if c = 'e' ∨ c = 'E' then do
      let (negative, rest) := sign rest
      let (ds, rest) ← digitRun decimal? rest
      let n : Int := ofDigits 10 ds
      return (if negative then -n else n, rest)
    else some (0, c :: rest)
  | [] => some (0, [])

/-- A number in decimal.  A float that would be past the largest is refused, one
below the least is not. -/
def decimalNumber (cs : List Char) : Option (Value × List Char) := do
  let (negative, cs) := sign cs
  let (whole, rest) ← wholeDigits cs
  let (fraction, rest) ← match rest with
    | '.' :: more => (digitRun decimal? more).map (fun (ds, rest) => (some ds, rest))
    | rest => some (none, rest)
  let (e, after) ← exponent rest
  if fraction.isNone ∧ after.length = rest.length then
    return (← integerOf negative (ofDigits 10 whole), rest)
  else
    let digits := whole ++ fraction.getD []
    if negative ∨ fits digits (e - ((fraction.getD []).length : Int)) then
      return (.float, after)
    else none

/-- A name that may follow a sign. -/
def specialNumber (cs : List Char) : Option (Value × List Char) :=
  match (sign cs).2 with
  | 'i' :: 'n' :: 'f' :: rest | 'n' :: 'a' :: 'n' :: rest => some (.float, rest)
  | _ => none

def baseNumber (base : Nat) (cs : List Char) : Option (Value × List Char) := do
  let (ds, rest) ← digitRun (digitOf base) cs
  return (← integerOf false (ofDigits base ds), rest)

def number (cs : List Char) : Option (Value × List Char) :=
  match cs with
  | '0' :: 'x' :: rest => baseNumber 16 rest
  | '0' :: 'o' :: rest => baseNumber 8 rest
  | '0' :: 'b' :: rest => baseNumber 2 rest
  | cs => match specialNumber cs with
    | some found => some found
    | none => decimalNumber cs

/-! ## Dates -/

/-- Drops two digits that write a number within bounds. -/
def dropPair (low high : Nat) (cs : List Char) : Option (List Char) := do
  let (n, rest) ← Timestamp.digits 2 cs
  if low ≤ n ∧ n ≤ high then return rest else none

def dropTime (cs : List Char) : Option (List Char) := do
  let rest ← dropPair 0 23 cs
  let rest ← Timestamp.one (· == ':') rest
  let rest ← dropPair 0 59 rest
  let rest ← Timestamp.one (· == ':') rest
  let rest ← dropPair 0 60 rest
  return ((Timestamp.fraction rest).map Prod.snd).getD rest

def dropOffset (cs : List Char) : Option (List Char) :=
  match cs with
  | c :: rest =>
    if c = 'Z' ∨ c = 'z' then some rest
    else if c = '+' ∨ c = '-' then do
      let rest ← dropPair 0 23 rest
      let rest ← Timestamp.one (· == ':') rest
      dropPair 0 59 rest
    else none
  | [] => none

def dropDate (cs : List Char) : Option (List Char) := do
  let (year, rest) ← Timestamp.digits 4 cs
  let rest ← Timestamp.one (· == '-') rest
  let (month, rest) ← Timestamp.digits 2 rest
  let rest ← Timestamp.one (· == '-') rest
  let (day, rest) ← Timestamp.digits 2 rest
  if 1 ≤ month ∧ month ≤ 12 ∧ 1 ≤ day ∧ day ≤ Timestamp.monthLength year month then return rest
  else none

/-- A date, a time, or both, and then perhaps an offset. -/
def moment (cs : List Char) : Option (Value × List Char) :=
  match dropDate cs with
  | none => (dropTime cs).map (fun rest => (.date, rest))
  | some rest =>
    let delimiter (c : Char) : Bool := c = 'T' || c = 't' || c = ' '
    match (Timestamp.one delimiter rest).bind dropTime with
    | none => some (.date, rest)
    | some rest => some (.date, (dropOffset rest).getD rest)

end Toml
end FleetMesh
