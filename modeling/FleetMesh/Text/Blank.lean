/-
White space.

Two classes are in use.  `isBlank` is the Unicode property White_Space, by which
names, lists and the output of probes are trimmed.  `isSeparator` is the four
characters that may stand between the tokens of a JSON text.
-/
namespace FleetMesh
namespace Text

/-- The Unicode property White_Space. -/
def isBlank (c : Char) : Bool :=
  let n := c.toNat
  (0x09 ≤ n && n ≤ 0x0D) || n == 0x20 || n == 0x85 || n == 0xA0 || n == 0x1680
    || (0x2000 ≤ n && n ≤ 0x200A) || n == 0x2028 || n == 0x2029 || n == 0x202F
    || n == 0x205F || n == 0x3000

/-- Space, tab, line feed and carriage return. -/
def isSeparator (c : Char) : Bool :=
  c = ' ' || c = '\t' || c = '\n' || c = '\r'

/-- Drops what satisfies `p` from both ends. -/
def trimBy (p : Char → Bool) (cs : List Char) : List Char :=
  ((cs.dropWhile p).reverse.dropWhile p).reverse

/-- The text without the blanks at its ends. -/
def trim (s : String) : String :=
  String.ofList (trimBy isBlank s.toList)

/-- Cuts a list at every element that satisfies `p`, which is dropped.  There is
one piece more than there are cuts, so the empty list has one empty piece. -/
def splitBy {α : Type} (p : α → Bool) : List α → List (List α)
  | [] => [[]]
  | c :: cs =>
    if p c then [] :: splitBy p cs
    else match splitBy p cs with
      | [] => [[c]]
      | piece :: pieces => (c :: piece) :: pieces

/-- Cuts a text at every `sep`. -/
def split (sep : Char) (s : String) : List String :=
  (splitBy (· == sep) s.toList).map String.ofList

/-- The text before the first character that satisfies `p` and the text after
it, if there is one. -/
def cutBy (p : Char → Bool) : List Char → Option (List Char × List Char)
  | [] => none
  | c :: cs => if p c then some ([], cs) else (cutBy p cs).map (fun (a, b) => (c :: a, b))

/-- Cuts at the first `sep`. -/
def cut (sep : Char) (s : String) : Option (String × String) :=
  (cutBy (· == sep) s.toList).map (fun (a, b) => (String.ofList a, String.ofList b))

end Text
end FleetMesh
