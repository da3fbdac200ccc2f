import Groundplan.Text.Numeral
import Groundplan.Text.Search

/-!
# Network addresses

Addresses of IPv4 are numbers of 32 bits, written as four decimal octets.  Those of IPv6 have 128
bits and are written as eight hexadecimal groups, of which the longest run of zeros is left out.

## Main definitions

- `Network.Family`: the two kinds of addresses
- `Network.readAddress?`: the number that a text writes
- `Network.addressText`: how an address is written
-/

namespace Groundplan

namespace Network

/-- The address family: how wide an address is and how it is written. -/
inductive Family where
  | v4
  | v6
deriving DecidableEq, Repr, Inhabited

/-- Number of bits of an address. -/
def Family.bits : Family → Nat
  | .v4 => 32
  | .v6 => 128

/-- The number that the digits of a base stand for, most significant first. -/
def ofDigits (base : Nat) (digits : List Nat) : Nat :=
  digits.foldl (fun total digit => total * base + digit) 0

/-- The lowest `count` digits of a number to a base, most significant first. -/
def toDigits (base : Nat) : Nat → Nat → List Nat
  | 0, _ => []
  | count + 1, n => toDigits base count (n / base) ++ [n % base]

/-! ## Reading -/

/-- An octet: at most three digits without needless zeros, for a number below 256. -/
def readOctet? (text : String) : Option Nat :=
  let cs := text.toList
  let wellFormed := !cs.isEmpty && cs.all Char.isDigit && cs.length ≤ 3
    && (cs == ['0'] || cs.head? ≠ some '0')
  if wellFormed then
    let n := Text.natOfDigits cs
    if n ≤ 255 then some n else none
  else none

/-- An IPv4 address. -/
def readV4? (text : String) : Option Nat := do
  let octets ← (Text.splitOn "." text).mapM readOctet?
  if octets.length = 4 then some (ofDigits 256 octets) else none

/-- The value of a hexadecimal digit. -/
def hexDigit? (c : Char) : Option Nat :=
  if c.isDigit then some (c.toNat - '0'.toNat)
  else if 'a' ≤ c && c ≤ 'f' then some (c.toNat - 'a'.toNat + 10)
  else if 'A' ≤ c && c ≤ 'F' then some (c.toNat - 'A'.toNat + 10)
  else none

/-- A group of one to four hexadecimal digits. -/
def readGroup? (text : String) : Option Nat := do
  let digits ← text.toList.mapM hexDigit?
  if 1 ≤ digits.length && digits.length ≤ 4 then some (ofDigits 16 digits) else none

/-- The parts between colons, where an IPv4 address in the last part counts as two groups. -/
def v6Parts? (text : String) : Option (List String) :=
  let parts := Text.splitOn ":" text
  if parts.length < 3 then none
  else
    let last := parts.getLastD ""
    if last.toList.contains '.' then do
      let n ← readV4? last
      let group (i : Nat) := String.ofList (Nat.toDigits 16 i)
      some (parts.dropLast ++ [group (n / 65536), group (n % 65536)])
    else some parts

/-- Places of the empty parts that are neither the first nor the last. -/
def innerGaps (parts : List String) : List Nat :=
  (List.range parts.length).filter fun i =>
    0 < i && i + 1 < parts.length && parts[i]? == some ""

/-- The groups before or behind a gap, of which the outermost may be empty if it is the only
one. -/
def withoutEdge (parts : List String) : List String :=
  if parts == [""] then [] else parts

/-- An IPv6 address: eight groups, or fewer with one gap that stands for the missing ones. -/
def readV6? (text : String) : Option Nat := do
  let parts ← v6Parts? text
  if 9 < parts.length then none
  match innerGaps parts with
  | [] =>
    let groups ← parts.mapM readGroup?
    if groups.length = 8 then some (ofDigits 65536 groups) else none
  | [gap] =>
    let before ← (withoutEdge (parts.take gap)).mapM readGroup?
    let behind ← (withoutEdge (parts.drop (gap + 1))).mapM readGroup?
    let missing := 8 - (before.length + behind.length)
    if missing = 0 then none
    some (ofDigits 65536 (before ++ List.replicate missing 0 ++ behind))
  | _ => none

/-- An IPv6 address, perhaps with the name of an interface behind a percent sign, which does not
count. -/
def readScoped? (text : String) : Option Nat :=
  match Text.splitOn "%" text with
  | [address] => readV6? address
  | [address, interface] => if interface == "" then none else readV6? address
  | _ => none

/-- The number that a text writes as an address. -/
def readAddress? : Family → String → Option Nat
  | .v4, text => readV4? text
  | .v6, text => readScoped? text

/-! ## Writing -/

/-- Lengths of the runs of zeros that start at each place. -/
def zeroRuns : List Nat → List Nat
  | [] => []
  | group :: groups =>
    let runs := zeroRuns groups
    (if group = 0 then runs.headD 0 + 1 else 0) :: runs

/-- The first of the longest runs of at least two zeros: its place and length. -/
def longestGap? (groups : List Nat) : Option (Nat × Nat) :=
  let runs := zeroRuns groups
  let longest := runs.foldl max 0
  if longest < 2 then none else some (runs.findIdx (· == longest), longest)

/-- Hexadecimal groups with colons between them. -/
def joinGroups (groups : List Nat) : String :=
  ":".intercalate (groups.map fun group => String.ofList (Nat.toDigits 16 group))

/-- How an IPv6 address is written. -/
def v6Text (address : Nat) : String :=
  let groups := toDigits 65536 8 address
  match longestGap? groups with
  | none => joinGroups groups
  | some (place, length) =>
    joinGroups (groups.take place) ++ "::" ++ joinGroups (groups.drop (place + length))

/-- How an address is written. -/
def addressText : Family → Nat → String
  | .v4, address => ".".intercalate ((toDigits 256 4 address).map toString)
  | .v6, address => v6Text address

end Network

end Groundplan
