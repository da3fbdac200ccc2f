import Groundplan.Proofs.Network.Subnet

/-!
# Hosts of Numbered Blocks

The hosts of a numbered block are hosts of the whole, counted on from where the block starts.
Numbers below zero count back from the end of a block, so each of its hosts has two numbers.

## Main Statements

- `Network.Block.host?_child`: a host of a numbered block is a host of the whole
- `Library.host_subnet`: hosts of the block that a function on prefixes has returned
-/

namespace Groundplan.Network.Block

variable {b : Block} {index : Nat} {number : Int}

/-! ## Numbers of hosts -/

theorem host?_natCast (h : index < b.size) : b.host? index = some (b.base + index) := by
  have hinside : (0 ≤ (index : Int) && (index : Int) < b.size) = true := by
    simp only [Bool.and_eq_true, decide_eq_true_eq]
    omega
  simp only [host?, if_neg (Int.not_lt.mpr (Int.natCast_nonneg index)), hinside, if_true,
    Int.toNat_natCast]

/-- The same host, counted back from the end. -/
theorem host?_sub_size (h : index < b.size) :
    b.host? ((index : Int) - b.size) = some (b.base + index) := by
  have hnegative : (index : Int) - b.size < 0 := by omega
  have hinside : (0 ≤ (index : Int) && (index : Int) < b.size) = true := by
    simp only [Bool.and_eq_true, decide_eq_true_eq]
    omega
  simp only [host?, if_pos hnegative, Int.sub_add_cancel, hinside, if_true, Int.toNat_natCast]

theorem host?_eq_none (h : number < -b.size ∨ b.size ≤ number) : b.host? number = none := by
  unfold host?
  dsimp only
  rw [if_neg]
  simp only [Bool.and_eq_true, decide_eq_true_eq]
  split_ifs <;> omega

/-- The hosts of a numbered block are counted on from where it starts. -/
theorem host?_child {newBits place : Nat} (h : b.length + newBits ≤ b.family.bits)
    (hplace : place < 2 ^ newBits) (hindex : index < (b.child newBits place).size) :
    b.host? (place * (b.child newBits place).size + index) =
      (b.child newBits place).host? index := by
  rw [host?_natCast hindex, child_base, Nat.add_assoc]
  rw [child_size] at hindex ⊢
  -- The blocks in front of it and the index together stay below the size of the whole.
  have hinside : place * b.family.sizeAt (b.length + newBits) + index < b.size := by
    calc place * b.family.sizeAt (b.length + newBits) + index
        < (place + 1) * b.family.sizeAt (b.length + newBits) := by
          rw [Nat.succ_mul]
          exact Nat.add_lt_add_left hindex _
      _ ≤ 2 ^ newBits * b.family.sizeAt (b.length + newBits) := Nat.mul_le_mul_right _ hplace
      _ = b.size := (Family.sizeAt_eq_mul h).symm
  exact_mod_cast host?_natCast hinside

end Groundplan.Network.Block

namespace Groundplan.Library

open Network (Block)

variable {written : String} {b : Block} {number : Int}

/-! ## The functions on prefixes -/

theorem host_eq_ok (hread : Block.read? written = some b) {address : Nat}
    (h : b.host? number = some address) :
    host written number = .ok (Network.addressText b.family address) := by
  simp only [host, networkBlock_bind hread, h]
  rfl

theorem rejected_host (hread : Block.read? written = some b) (h : b.host? number = none) :
    Rejected "cidrhost" number (host written number) := by
  simp only [host, networkBlock_bind hread, h]
  exact .of_writeInt fun _ => ⟨_, rfl⟩

/-- The block that is returned has hosts of the whole: they are the ones counted on from its start,
each with a second number from the end, and all different.  Other numbers are refused, provided that
they can be shown. -/
theorem host_subnet (hread : Block.read? written = some b) {newBits : Int} {returned : String}
    (hsubnet : subnet written newBits number = .ok returned) :
    ∃ c, Block.read? returned = some c ∧ c.family = b.family
      ∧ c.size = 2 ^ (b.family.bits - b.length - newBits.toNat)
      ∧ (∀ index : Nat, index < c.size → ∃ text, host returned index = .ok text
        ∧ Network.readAddress? c.family text = some (c.base + index)
        ∧ host written (number * c.size + index) = .ok text
        ∧ host returned (index - c.size) = .ok text)
      ∧ (∀ index index' : Nat, index < c.size → index' < c.size →
        host returned index = host returned index' → index = index')
      ∧ (∀ other : Int, other < -c.size ∨ c.size ≤ other → other.natAbs < 10 ^ digitLimit →
        Refused "cidrhost" (host returned other))
      ∧ ∀ (text : String) (other : Decimal), other.isWhole = true →
        Answers "cidrhost" [.string text, .number other]
          ((host text other.toInt).map .string) := by
  obtain ⟨more, place, rfl, rfl, hwidth, hplace, hreturned⟩ | ⟨-, hrejected⟩ | ⟨-, hrejected⟩ :=
    subnet_cases hread newBits number
  · -- The text that was returned is read back as the numbered block.
    have hb := Block.isWellFormed_of_read? hread
    have hc := hb.child hwidth hplace
    obtain rfl : (b.child more place).text = returned :=
      Except.ok.inj (hreturned.symm.trans hsubnet)
    have hreadc := Block.read?_text hc
    have hhost : ∀ index : Nat, index < (b.child more place).size →
        host (b.child more place).text index =
          .ok (Network.addressText b.family ((b.child more place).base + index)) :=
      fun index hindex => host_eq_ok hreadc (Block.host?_natCast hindex)
    have hlt : ∀ index : Nat, index < (b.child more place).size →
        (b.child more place).base + index < 2 ^ b.family.bits :=
      fun index hindex => (Nat.add_lt_add_left hindex _).trans_le hc.stop_le
    refine ⟨_, hreadc, rfl, ?size,
      fun index hindex => ⟨_, hhost index hindex, ?read, ?whole, ?back⟩, ?distinct, ?outside,
      fun text _ => answers_host text⟩
    case size => rw [Block.child_size, Network.Family.sizeAt_eq, Nat.sub_sub, Int.toNat_natCast]
    case read => exact Network.readAddress?_addressText (hlt index hindex)
    case whole =>
      refine host_eq_ok hread ?_
      rw [Block.host?_child hwidth hplace hindex, Block.host?_natCast hindex]
    case back => exact host_eq_ok hreadc (Block.host?_sub_size hindex)
    case distinct =>
      intro index index' hindex hindex' hsame
      rw [hhost index hindex, hhost index' hindex'] at hsame
      exact Nat.add_left_cancel
        (Network.addressText_inj (hlt index hindex) (hlt index' hindex') (Except.ok.inj hsame))
    case outside =>
      intro other hother hdigits
      exact (rejected_host hreadc (Block.host?_eq_none hother)).refused hdigits
  · exact absurd hsubnet (hrejected.ne_ok returned)
  · exact absurd hsubnet (hrejected.ne_ok returned)

/-- The host 12 of the second of 16 blocks is the host 268 of the whole. -/
theorem host_subnet_second :
    let b : Block := ⟨.v4, 0x0A0C7000, 20⟩
    let twelve : Decimal := ⟨false, 12, 0⟩
    Block.read? "10.12.112.0/20" = some b
      ∧ subnet "10.12.112.0/20" 4 1 = .ok "10.12.113.0/24"
      ∧ (∃ text, host "10.12.113.0/24" 12 = .ok text ∧ host "10.12.112.0/20" 268 = .ok text
        ∧ standard.call "cidrhost" [.string "10.12.113.0/24", .number twelve] none =
          .ok (.string text))
      ∧ Refused "cidrhost" (host "10.12.113.0/24" (-257)) := by
  intro b twelve
  have hread : Block.read? "10.12.112.0/20" = some b := by decide +kernel
  have hsubnet : subnet "10.12.112.0/20" 4 1 = .ok "10.12.113.0/24" := by
    have htext : (b.child 4 1).text = "10.12.113.0/24" := by decide +kernel
    exact htext ▸ subnet_eq_ok hread (by decide) (by decide)
  obtain ⟨c, -, -, hsize, hhosts, -, houtside, hanswers⟩ := host_subnet hread hsubnet
  have hcount : c.size = 256 := hsize
  rw [hcount] at hhosts houtside
  obtain ⟨text, hhost, -, hwhole, -⟩ := hhosts 12 (by decide)
  have hcall := (hanswers _ twelve rfl).value _ (congrArg (Except.map Value.string) hhost)
  exact ⟨hread, hsubnet, ⟨text, hhost, hwhole, hcall none⟩,
    houtside (-257) (.inl (by decide)) (by decide +kernel)⟩

/-- A number of 4301 digits is refused by no problem of the function. -/
theorem host_unshowable :
    let number : Int := ((10 ^ digitLimit : Nat) : Int)
    ∃ b, Block.read? "10.1.0.0/16" = some b ∧ subnet "10.1.0.0/16" 0 0 = .ok "10.1.0.0/16"
      ∧ b.size ≤ number ∧ ¬ Refused "cidrhost" (host "10.1.0.0/16" number) := by
  intro number
  have hread : Block.read? "10.1.0.0/16" = some ⟨.v4, 0x0A010000, 16⟩ := by decide +kernel
  have hsubnet : subnet "10.1.0.0/16" 0 0 = .ok "10.1.0.0/16" := by
    have htext : (Block.child ⟨.v4, 0x0A010000, 16⟩ 0 0).text = "10.1.0.0/16" := by decide +kernel
    exact htext ▸ subnet_eq_ok hread (by decide) (by decide)
  have hlarge : ((2 ^ 16 : Nat) : Int) ≤ number := Int.ofNat_le.mpr (two_pow_le (by decide))
  have hrejected : Rejected "cidrhost" number (host "10.1.0.0/16" number) :=
    rejected_host hread (Block.host?_eq_none (.inr hlarge))
  exact ⟨_, hread, hsubnet, hlarge, hrejected.not_refused (Int.natAbs_natCast _).ge⟩

end Groundplan.Library
