/-
The names by which a TLS client may call a server: a domain name or an IP
address.
-/
import FleetMesh.Tls.Address

namespace FleetMesh
namespace Tls

inductive ServerName
  | domain (name : String)
  | address (a : Address)
  deriving DecidableEq, Repr

namespace ServerName

/-- The most bytes of a domain name, and of one of its labels. -/
def maxLength : Nat := 253
def maxLabelLength : Nat := 63

def isLabelChar (c : Char) : Bool := c.isAlphanum || c = '-' || c = '_'

def isLabel (cs : List Char) : Bool :=
  cs ≠ [] && cs.length ≤ maxLabelLength && cs.all isLabelChar
    && cs.head? != some '-' && cs.getLast? != some '-'

/-- Labels between points, with or without a point after the last.  The last label
is not a number, so that no address is taken for a domain name. -/
def isDomain (name : String) : Bool :=
  let labels := Text.splitBy (· == '.') name.toList
  let labels := if labels.getLast? = some [] then labels.dropLast else labels
  name.utf8ByteSize ≤ maxLength && labels ≠ [] && labels.all isLabel
    && !(labels.getLast?.any (fun last => last.all Char.isDigit))

def parse? (host : String) : Option ServerName :=
  if isDomain host then some (domain host) else (Address.parse? host).map address

end ServerName
end Tls
end FleetMesh
