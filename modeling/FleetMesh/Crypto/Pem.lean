/-
PEM texts.

A text holds sections between a line that begins with `-----BEGIN` and one that
begins with the matching `-----END`; what stands outside is ignored.  `sections`
reads them all, leniently about line ends and spaces.  `strict` is the reader
for a text that has to be one section, written in lines of equal length.
-/
import FleetMesh.Crypto.Base64
import FleetMesh.Text.Blank
import FleetMesh.Text.Glyph

namespace FleetMesh
namespace Pem

/-- What a section holds. -/
structure Section where
  label : String
  der : List UInt8
  deriving DecidableEq, Repr

/-- The labels whose sections are decoded; others are passed over. -/
def knownLabels : List String :=
  ["CERTIFICATE", "PUBLIC KEY", "RSA PRIVATE KEY", "PRIVATE KEY", "EC PRIVATE KEY", "X509 CRL",
    "CERTIFICATE REQUEST", "ECHCONFIG"]

def beginMark : List UInt8 := Text.bytesOf "-----BEGIN "
def endMark : List UInt8 := Text.bytesOf "-----END "
def dashes : List UInt8 := Text.bytesOf "-----"

def lineFeed : UInt8 := 10
def carriageReturn : UInt8 := 13
def dash : UInt8 := 45
def space : UInt8 := 32

/-- A section that is open: its label, and whatever was collected of its body. -/
structure Reading where
  label : Option (List UInt8)
  body : List UInt8
  done : List Section
  /-- The text is not well formed; nothing after the fault counts. -/
  faulty : Bool

/-- The label of an opening line, which has to end with five dashes. -/
def labelOf? (line : List UInt8) : Option (List UInt8) :=
  let back := line.reverse
  let marks := back.takeWhile (fun b => b = dash || b = space)
  if (marks.filter (· == dash)).length ≠ 5 then none
  else
    let kept := (back.dropWhile (· == space))
    let trailing := kept.takeWhile (fun b => b = dash || b = space)
    let cut := (trailing.reverse.dropWhile (· == space)).length
    some ((kept.drop cut).reverse.drop beginMark.length)

/-- White space within a body does not count. -/
def isBodyBlank (b : UInt8) : Bool :=
  b = space || (9 ≤ b && b ≤ 13)

/-- One line more. -/
def step (r : Reading) (line : List UInt8) : Reading :=
  if r.faulty then r
  else if beginMark.isPrefixOf line then
    match labelOf? line with
    | some label => { r with label := some label }
    | none => { r with faulty := true }
  else match r.label with
    | none => r
    | some label =>
      if (endMark ++ label ++ dashes).isPrefixOf line then
        match Text.decode? label with
        | some name =>
          if name ∈ knownLabels then
            match Base64.decode false (r.body.filter (fun b => !isBodyBlank b)) with
            | some der => ⟨none, [], r.done ++ [⟨name, der⟩], false⟩
            | none => { r with faulty := true }
          else { r with label := none, body := [] }
        | none => { r with label := none, body := [] }
      else { r with body := r.body ++ line }

/-- The sections up to the first fault, and whether there is one. -/
def sections (text : List UInt8) : List Section × Bool :=
  let lines := Text.splitBy (fun b => b = lineFeed || b = carriageReturn) text
  let r := lines.foldl step ⟨none, [], [], false⟩
  (r.done, r.faulty || r.label.isSome)

/-- The first section with one of the labels; none if a fault comes before it. -/
def first? (labels : List String) (text : List UInt8) : Option Section :=
  (sections text).1.find? (fun s => labels.contains s.label)

/-- All sections with a label; none at all if the text is faulty. -/
def all? (label : String) (text : List UInt8) : Option (List Section) :=
  let (found, faulty) := sections text
  if faulty then none else some (found.filter (fun s => s.label == label))

def certificateLabel : String := "CERTIFICATE"

/-- The first certificate of a text. -/
def certificate? (text : List UInt8) : Option (List UInt8) :=
  (first? [certificateLabel] text).map Section.der

/-! ## The strict form -/

/-- The length of a full line of a strict body. -/
def lineLength : Nat := 64

/-- Drops one line end. -/
def dropLineEnd : List Char → Option (List Char)
  | '\r' :: '\n' :: rest => some rest
  | '\n' :: rest => some rest
  | '\r' :: rest => some rest
  | _ => none

/-- Drops one line end at the end, if there is one. -/
def dropLastLineEnd (cs : List Char) : List Char :=
  match cs.reverse with
  | '\n' :: '\r' :: rest => rest.reverse
  | '\n' :: rest => rest.reverse
  | '\r' :: rest => rest.reverse
  | _ => cs

/-- Drops text before the opening line, which has to begin a line. -/
def dropPreamble (mark : List Char) : List Char → Option (List Char)
  | [] => none
  | '\n' :: rest =>
    if mark.isPrefixOf rest then some (rest.drop mark.length) else dropPreamble mark rest
  | '\x00' :: _ => none
  | _ :: rest => dropPreamble mark rest

/-- Joins the lines of a body.  All but the last are full. -/
def joinLines : List (List Char) → Option (List Char)
  | [] => some []
  | [last] => if last.length ≤ lineLength then some last else none
  | line :: rest =>
    if line.length = lineLength then (joinLines rest).map (line ++ ·) else none

/-- The label and content of a text that is one section. -/
def strict (text : String) : Option Section := do
  let mark := "-----BEGIN ".toList
  let cs := text.toList
  let cs ← if mark.isPrefixOf cs then some (cs.drop mark.length) else dropPreamble mark cs
  let label := cs.takeWhile (· != '-')
  let rest := cs.drop label.length
  let five := "-----".toList
  if !five.isPrefixOf rest then none
  else
    let body ← dropLineEnd (rest.drop five.length)
    let closing := "-----END ".toList ++ label ++ five
    let body := dropLastLineEnd body
    if !closing.isSuffixOf body then none
    else
      let body := dropLastLineEnd (body.take (body.length - closing.length))
      let lines := (Text.splitBy (· == '\n') body).map (fun l => if l.getLast? = some '\r' then l.dropLast else l)
      let joined ← joinLines lines
      let der ← Base64.decode true (Text.bytesOf (String.ofList joined))
      return ⟨String.ofList label, der⟩

end Pem
end FleetMesh
