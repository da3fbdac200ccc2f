import Groundplan.Network.Prefix

/-!
# Subnets and hosts

Numbering of the blocks and addresses inside a block.

## Main definitions

- `Network.Block.child?`: the block of a number among those with some more leading bits
- `Network.Block.host?`: the address of a number, counted from either end
- `Network.Block.allocate`: consecutive blocks of given sizes
-/

namespace Groundplan

namespace Network

namespace Block

/-- The blocks that lie in a block and have `newBits` more leading bits are numbered from zero;
there are `2 ^ newBits` of them. -/
def child (b : Block) (newBits number : Nat) : Block :=
  let length := b.length + newBits
  ⟨b.family, b.base + number * b.family.sizeAt length, length⟩

/-- The address with a number; negative numbers count back from the last address. -/
def host? (b : Block) (number : Int) : Option Nat :=
  let index := if number < 0 then number + b.size else number
  if 0 ≤ index && index < b.size then some (b.base + index.toNat) else none

/-- The mask of the leading bits. -/
def mask (b : Block) : Nat :=
  Nat.pow 2 b.family.bits - b.size

/-- The first multiple of a positive size that is not below a number. -/
def alignUp (n size : Nat) : Nat :=
  (n + size - 1) / size * size

/-- Why a block with `newBits` more leading bits cannot be allocated. -/
inductive AllocationProblem where
  | noNewBits
  | beyondWidth
  | full (length : Nat)
deriving DecidableEq, Repr, Inhabited

/-- The block with `newBits` more leading bits that starts at the first suitable address not below
`cursor`. -/
def place (b : Block) (cursor : Nat) (newBits : Int) : Except AllocationProblem Block :=
  if newBits < 1 then .error .noNewBits
  else
    let length := b.length + newBits.toNat
    if b.family.bits < length then .error .beyondWidth
    else
      let start := alignUp cursor (b.family.sizeAt length)
      let found : Block := ⟨b.family, start, length⟩
      if b.base + b.size < start + found.size then .error (.full length) else .ok found

/-- Consecutive blocks with so many more leading bits each, from `cursor` on; a problem comes with
the place in the list, counted from `position`. -/
def allocate (b : Block) (cursor position : Nat) :
    List Int → Except (Nat × Int × AllocationProblem) (List Block)
  | [] => .ok []
  | newBits :: rest =>
    match b.place cursor newBits with
    | .error problem => .error (position, newBits, problem)
    | .ok found => do
      return found :: (← allocate b (found.base + found.size) (position + 1) rest)

end Block

end Network

end Groundplan
