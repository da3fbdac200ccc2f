import Groundplan.Library.Collection
import Groundplan.Network.Subnet
import Groundplan.Text.Quoted

/-!
# Functions on network prefixes

## Main definitions

- `Library.subnet`, `Library.host`, `Library.netmask`, `Library.subnets`
- `Library.networkFunctions`: all functions on network prefixes with their signatures
-/

namespace Groundplan

namespace Library

open Network (Block)

/-- The block that a prefix writes. -/
def networkBlock (function written : String) : Outcome Block :=
  let refuse (detail : String) : Outcome Block :=
    fail (.functionCall function ("invalid CIDR address '" ++ written ++ "': " ++ detail)) none
  if !written.toList.contains '/' then refuse "missing prefix length"
  else
    match Block.read? written with
    | some block => .ok block
    | none => refuse (Text.quoteShown written ++ " does not appear to be an IPv4 or IPv6 network")

/-- The block numbered `number` among those with `newBits` more leading bits. -/
def subnet (written : String) (newBits number : Int) : Outcome String := do
  let block ← networkBlock "cidrsubnet" written
  if newBits < 0 then
    let shown ← writeInt newBits
    fail (.functionCall "cidrsubnet" ("newbits must not be negative, got " ++ shown)) none
  if block.family.bits < block.length + newBits then
    let shown ← writeInt newBits
    fail (.functionCall "cidrsubnet" ("insufficient address space to extend prefix of "
      ++ toString block.length ++ " by " ++ shown)) none
  if number < 0 || Nat.pow 2 newBits.toNat ≤ number then
    let shown ← writeInt number
    fail (.functionCall "cidrsubnet" ("prefix extension of " ++ showInt newBits
      ++ " does not accommodate a subnet numbered " ++ shown)) none
  return (block.child newBits.toNat number.toNat).text

/-- The address numbered `number` of a block. -/
def host (written : String) (number : Int) : Outcome String := do
  let block ← networkBlock "cidrhost" written
  match block.host? number with
  | some address => return Network.addressText block.family address
  | none =>
    let shown ← writeInt number
    fail (.functionCall "cidrhost" ("prefix of " ++ toString block.length
      ++ " does not accommodate a host numbered " ++ shown)) none

/-- The mask of an IPv4 block. -/
def netmask (written : String) : Outcome String := do
  let block ← networkBlock "cidrnetmask" written
  match block.family with
  | .v4 => return Network.addressText .v4 block.mask
  | .v6 => fail (.functionCall "cidrnetmask" "only IPv4 prefixes have a netmask form") none

/-- Consecutive blocks with so many more leading bits each. -/
def subnets (written : String) (newBits : List Int) : Outcome (List String) := do
  let block ← networkBlock "cidrsubnets" written
  match block.allocate block.base 2 newBits with
  | .ok blocks => return blocks.map Block.text
  | .error (position, bits, problem) =>
    let detail ← match problem with
      | .noNewBits => do pure ("newbits must be at least 1, got " ++ (← writeInt bits))
      | .beyondWidth => do
        pure ("insufficient address space to extend prefix of " ++ toString block.length
          ++ " by " ++ (← writeInt bits))
      | .full length =>
        pure ("not enough remaining address space for a subnet with a prefix of "
          ++ toString length ++ " bits")
    fail (.functionCall "cidrsubnets" ("argument " ++ toString position ++ ": " ++ detail)) none

/-- Whole-number arguments, counted from `position`. -/
def wholeNumbers (function : String) (position : Int) : List Value → Outcome (List Int)
  | [] => .ok []
  | arg :: args => do
    let i ← wholeNumber function position arg
    return i :: (← wholeNumbers function (position + 1) args)

/-- All functions on network prefixes. -/
def networkFunctions : List Function := [
  ⟨plainSignature "cidrsubnet"
      [.of "prefix" [.string], .of "newbits" [.number], .of "netnum" [.number]] .shallow,
    fun
    | [.string written, newBits, number] => do
      let newBits ← wholeNumber "cidrsubnet" 2 newBits
      let number ← wholeNumber "cidrsubnet" 3 number
      return .string (← subnet written newBits number)
    | _ => unsuited "cidrsubnet"⟩,
  ⟨plainSignature "cidrhost" [.of "prefix" [.string], .of "hostnum" [.number]] .shallow,
    fun
    | [.string written, number] => do
      let number ← wholeNumber "cidrhost" 2 number
      return .string (← host written number)
    | _ => unsuited "cidrhost"⟩,
  ⟨plainSignature "cidrnetmask" [.of "prefix" [.string]] .shallow,
    fun
    | [.string written] => (netmask written).map .string
    | _ => unsuited "cidrnetmask"⟩,
  ⟨⟨"cidrsubnets", [.of "prefix" [.string]], some (.of "newbits" [.number]), 1, .shallow⟩,
    fun
    | .string written :: newBits => do
      let newBits ← wholeNumbers "cidrsubnets" 2 newBits
      return .list ((← subnets written newBits).map .string)
    | _ => unsuited "cidrsubnets"⟩]

end Library

end Groundplan
