import Groundplan.Network.Address
import Groundplan.Problem

/-!
# Network prefixes

A block of addresses that share their leading bits, written as an address and the number of those
bits: `10.1.0.0/16`.  Bits behind them do not count, so `10.1.2.3/16` writes the same block.

## Main definitions

- `Network.Block`: a block of addresses
- `Network.Block.read?`: the block that a text writes
- `Network.Block.text`: how a block is written
-/

namespace Groundplan

namespace Network

/-- All addresses that agree with the first one in their leading bits. -/
structure Block where
  family : Family
  /-- The first address. -/
  base : Nat
  /-- Number of leading bits. -/
  length : Nat
deriving DecidableEq, Repr, Inhabited

/-- Number of addresses that share some leading bits. -/
def Family.sizeAt (family : Family) (length : Nat) : Nat :=
  Nat.pow 2 (family.bits - length)

namespace Block

/-- The block of an address. -/
def around (family : Family) (address length : Nat) : Block :=
  ⟨family, address / family.sizeAt length * family.sizeAt length, length⟩

/-- Number of addresses. -/
def size (b : Block) : Nat :=
  b.family.sizeAt b.length

/-- The number of leading bits that a mask has, if the rest of its bits is zero. -/
def maskLength? (mask : Nat) : Option Nat :=
  (List.range 33).find? fun length => mask == Nat.pow 2 32 - Nat.pow 2 (32 - length)

/-- A number of leading bits in decimal digits, of which there are no more than may be read. -/
def readCount? (family : Family) (text : String) : Option Nat :=
  let cs := text.toList
  if cs.isEmpty || !cs.all Char.isDigit || digitLimit < cs.length then none
  else
    let n := Text.natOfDigits cs
    if n ≤ family.bits then some n else none

/-- A number of leading bits, also as a mask or as the inverse of one for IPv4. -/
def readLength? (family : Family) (text : String) : Option Nat :=
  match readCount? family text, family with
  | some length, _ => some length
  | none, .v6 => none
  | none, .v4 => do
    let mask ← readV4? text
    (maskLength? mask).or (maskLength? (Nat.pow 2 32 - 1 - mask))

/-- A block of a family. -/
def readOf? (family : Family) (address length : String) : Option Block := do
  return around family (← readAddress? family address) (← readLength? family length)

/-- The block that a text with a slash writes. -/
def read? (text : String) : Option Block :=
  match Text.splitOn "/" text with
  | [address, length] => (readOf? .v4 address length).or (readOf? .v6 address length)
  | _ => none

/-- How a block is written. -/
def text (b : Block) : String :=
  addressText b.family b.base ++ "/" ++ toString b.length

end Block

end Network

end Groundplan
