/-
Points in time, as RFC 3339 writes them.

A timestamp keeps the civil date and time that were written and the offset they
were written with, so that it is written back as it was read.  Two timestamps
are the same point in time when their instants agree, whatever their offsets.
-/
import FleetMesh.Json.Record

namespace FleetMesh

/-- A civil date and time, and its offset from UTC in minutes. -/
structure Timestamp where
  year : Nat
  month : Nat
  day : Nat
  hour : Nat
  minute : Nat
  second : Nat
  nanosecond : Nat
  offset : Int
  deriving DecidableEq, Repr

namespace Timestamp

/-! ## The calendar -/

def isLeapYear (year : Int) : Bool :=
  year % 4 = 0 && (year % 100 ≠ 0 || year % 400 = 0)

def monthLength (year : Int) (month : Nat) : Nat :=
  if month = 2 then (if isLeapYear year then 29 else 28)
  else if month = 4 ∨ month = 6 ∨ month = 9 ∨ month = 11 then 30
  else 31

/-- Days from the first of January 1970 to a date.  Years are counted from March,
so that the leap day is the last of its year. -/
def daysOf (year : Int) (month day : Nat) : Int :=
  let y := if month ≤ 2 then year - 1 else year
  let era := y / 400
  let yearOfEra := y - era * 400
  let monthFromMarch : Int := ((month : Int) + 9) % 12
  let dayOfYear := (153 * monthFromMarch + 2) / 5 + day - 1
  let dayOfEra := yearOfEra * 365 + yearOfEra / 4 - yearOfEra / 100 + dayOfYear
  era * 146097 + dayOfEra - 719468

/-- Year, month and day of a day counted from the first of January 1970. -/
def dateOf (days : Int) : Int × Nat × Nat :=
  let z := days + 719468
  let era := z / 146097
  let dayOfEra := z - era * 146097
  let yearOfEra := (dayOfEra - dayOfEra / 1460 + dayOfEra / 36524 - dayOfEra / 146096) / 365
  let dayOfYear := dayOfEra - (365 * yearOfEra + yearOfEra / 4 - yearOfEra / 100)
  let monthFromMarch := (5 * dayOfYear + 2) / 153
  let day := dayOfYear - (153 * monthFromMarch + 2) / 5 + 1
  let month := if monthFromMarch < 10 then monthFromMarch + 3 else monthFromMarch - 9
  let year := yearOfEra + era * 400
  (if month ≤ 2 then year + 1 else year, month.toNat, day.toNat)

/-- Seconds from the start of 1970 in UTC. -/
def unixSeconds (t : Timestamp) : Int :=
  daysOf t.year t.month t.day * 86400 + t.hour * 3600 + t.minute * 60 + t.second - t.offset * 60

/-- The same point in time. -/
instance : BEq Timestamp where
  beq a b := a.unixSeconds == b.unixSeconds && a.nanosecond == b.nanosecond

/-- The timestamp in UTC of a number of seconds since the start of 1970. -/
def ofUnix (seconds : Int) : Timestamp :=
  let (year, month, day) := dateOf (seconds / 86400)
  let rest := (seconds % 86400).toNat
  ⟨year.toNat, month, day, rest / 3600, rest / 60 % 60, rest % 60, 0, 0⟩

/-- A whole second stands for its timestamp. -/
instance : Coe Int Timestamp := ⟨ofUnix⟩

/-! ## Text -/

/-- The last `width` decimal digits. -/
def padded (width n : Nat) : List Char :=
  match width with
  | 0 => []
  | w + 1 => padded w (n / 10) ++ [Char.ofNat ('0'.toNat + n % 10)]

/-- A fraction of a second without trailing zeros; nothing for none. -/
def fractionChars (nanosecond : Nat) : List Char :=
  if nanosecond = 0 then []
  else '.' :: ((padded 9 nanosecond).reverse.dropWhile (· == '0')).reverse

def offsetChars (offset : Int) : List Char :=
  if offset = 0 then ['Z']
  else
    let n := offset.natAbs
    (if offset < 0 then '-' else '+') :: padded 2 (n / 60) ++ ':' :: padded 2 (n % 60)

def chars (t : Timestamp) : List Char :=
  padded 4 t.year ++ '-' :: padded 2 t.month ++ '-' :: padded 2 t.day ++ 'T' ::
    padded 2 t.hour ++ ':' :: padded 2 t.minute ++ ':' :: padded 2 t.second ++
    fractionChars t.nanosecond ++ offsetChars t.offset

def render (t : Timestamp) : String := String.ofList t.chars

/-- Whether the text says it: the year has four digits, and the offset is below a day. -/
def isWritable (t : Timestamp) : Bool := t.year ≤ 9999 && t.offset.natAbs < 24 * 60

/-- Reads `width` digits. -/
def digits (width : Nat) (cs : List Char) : Option (Nat × List Char) :=
  match width, cs with
  | 0, cs => some (0, cs)
  | _ + 1, [] => none
  | w + 1, c :: cs =>
    if c.isDigit then
      (digits w cs).map (fun (n, rest) => ((c.toNat - '0'.toNat) * Nat.pow 10 w + n, rest))
    else none

/-- Reads one character that `p` admits. -/
def one (p : Char → Bool) : List Char → Option (List Char)
  | [] => none
  | c :: cs => if p c then some cs else none

/-- A fraction of one or more digits, of which nine count. -/
def fraction (cs : List Char) : Option (Nat × List Char) :=
  match cs with
  | '.' :: rest =>
    let ds := rest.takeWhile Char.isDigit
    if ds = [] then none
    else
      let nine := (ds ++ List.replicate 9 '0').take 9
      (digits 9 nine).map (fun (n, _) => (n, rest.dropWhile Char.isDigit))
  | cs => some (0, cs)

def offset? (cs : List Char) : Option Int :=
  match cs with
  | [c] => if c = 'Z' ∨ c = 'z' then some 0 else none
  | sign :: rest => do
    let (hours, rest) ← digits 2 rest
    let rest ← one (· == ':') rest
    let (minutes, rest) ← digits 2 rest
    if rest ≠ [] ∨ 23 < hours ∨ 59 < minutes then none
    else if sign = '+' then some ((hours * 60 + minutes : Nat) : Int)
    else if sign = '-' then some (-((hours * 60 + minutes : Nat) : Int))
    else none
  | [] => none

/-- Whether a leap second may follow: the timestamp is in the last second of a
month in UTC. -/
def endsMonth (t : Timestamp) : Bool :=
  let s := t.unixSeconds
  let (_, _, next) := dateOf (s / 86400 + 1)
  s % 86400 = 86399 && next = 1

/-- Reads a timestamp.  A leap second is taken as the last instant before it. -/
def parse? (s : String) : Option Timestamp := do
  let (year, cs) ← digits 4 s.toList
  let cs ← one (· == '-') cs
  let (month, cs) ← digits 2 cs
  let cs ← one (· == '-') cs
  let (day, cs) ← digits 2 cs
  let cs ← one (fun c => c == 'T' || c == 't' || c == ' ') cs
  let (hour, cs) ← digits 2 cs
  let cs ← one (· == ':') cs
  let (minute, cs) ← digits 2 cs
  let cs ← one (· == ':') cs
  let (second, cs) ← digits 2 cs
  let (nanosecond, cs) ← fraction cs
  let offset ← offset? cs
  if month = 0 ∨ 12 < month ∨ day = 0 ∨ monthLength year month < day then none
  else if 23 < hour ∨ 59 < minute ∨ 60 < second then none
  else if second = 60 then
    let t : Timestamp := ⟨year, month, day, hour, minute, 59, 999999999, offset⟩
    if t.endsMonth then some t else none
  else some ⟨year, month, day, hour, minute, second, nanosecond, offset⟩

/-- A timestamp as a JSON string. -/
def codec : Json.Codec Timestamp where
  write t := .string t.render
  read
    | _, .string s => match parse? s with
      | some t => .ok t
      | none => .error .invalidDate
    | _, d => d.refuse "an RFC3339-formatted `OffsetDateTime`"

end Timestamp
end FleetMesh
