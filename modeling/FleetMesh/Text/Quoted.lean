/-
Quoted texts, as error messages show them.
-/
import FleetMesh.Text.Hex
import FleetMesh.Text.Printable

namespace FleetMesh
namespace Text

/-- How one character stands between the quotation marks: escaped if it would
end the quotation or could not be seen, and itself otherwise. -/
def quoteChar (c : Char) : List Char :=
  if c = '"' then ['\\', '"']
  else if c = '\\' then ['\\', '\\']
  else if c = '\n' then ['\\', 'n']
  else if c = '\r' then ['\\', 'r']
  else if c = '\t' then ['\\', 't']
  else if c = '\x00' then ['\\', '0']
  else if isPrintable c then [c]
  else ['\\', 'u', '\x7b'] ++ hexNumber c.toNat ++ ['\x7d']

/-- The text between quotation marks. -/
def quote (s : String) : String :=
  String.ofList ('"' :: s.toList.flatMap quoteChar ++ ['"'])

end Text
end FleetMesh
