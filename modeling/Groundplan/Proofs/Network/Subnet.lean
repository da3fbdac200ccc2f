import Groundplan.Proofs.Network.Allocation
import Mathlib.Data.List.Range

/-!
# The Numbered Blocks Partition a Block

The blocks with some more leading bits lie side by side: each one ends where the next one starts,
the first one starts with the whole and the last one ends with it.  Allocation of blocks of one size
follows these numbers, since the end of one block already is a multiple of the size.

## Main Statements

- `Network.Block.IsWellFormed.child`: the numbered blocks are well-formed
- `Network.Block.mem_iff_exists_child`: they cover the block
- `Network.Block.packs_replicate`: blocks of one size are packed in the order of their numbers
- `Library.subnet_partition`: what the functions on prefixes return and when they refuse
-/

namespace Groundplan.Network.Block

variable {b : Block} {newBits number : Nat}

/-! ## Numbered blocks -/

theorem child_size (b : Block) (newBits number : Nat) :
    (b.child newBits number).size = b.family.sizeAt (b.length + newBits) :=
  rfl

theorem child_base (b : Block) (newBits number : Nat) :
    (b.child newBits number).base =
      b.base + number * b.family.sizeAt (b.length + newBits) :=
  rfl

/-- A block ends where the next one starts. -/
theorem child_stop (b : Block) (newBits number : Nat) :
    (b.child newBits number).stop = (b.child newBits (number + 1)).base := by
  rw [stop, child_base, child_base, child_size, Nat.succ_mul, Nat.add_assoc]

/-- Blocks with greater numbers lie behind. -/
theorem child_base_le_child_base {number' : Nat} (h : number ≤ number') :
    (b.child newBits number).base ≤ (b.child newBits number').base :=
  Nat.add_le_add_left (Nat.mul_le_mul_right _ h) _

/-- The block ends where the last of the numbered blocks does. -/
theorem stop_eq_child_base (h : b.length + newBits ≤ b.family.bits) :
    b.stop = (b.child newBits (2 ^ newBits)).base := by
  rw [stop, child_base, size, Family.sizeAt_eq_mul h]

theorem child_stop_le_stop (h : b.length + newBits ≤ b.family.bits)
    (hnumber : number < 2 ^ newBits) :
    (b.child newBits number).stop ≤ b.stop := by
  rw [child_stop, stop_eq_child_base h]
  exact child_base_le_child_base hnumber

theorem sizeAt_dvd_child_base (hb : b.IsWellFormed) (number : Nat) :
    b.family.sizeAt (b.length + newBits) ∣ (b.child newBits number).base := by
  have hsizes : b.family.sizeAt (b.length + newBits) ∣ b.size :=
    Nat.pow_dvd_pow 2 (Nat.sub_le_sub_left (Nat.le_add_right _ _) _)
  exact Nat.dvd_add (Nat.dvd_trans hsizes hb.size_dvd_base) (Nat.dvd_mul_left _ _)

/-- A numbered block is well-formed. -/
theorem IsWellFormed.child (hb : b.IsWellFormed) (h : b.length + newBits ≤ b.family.bits)
    (hnumber : number < 2 ^ newBits) : (b.child newBits number).IsWellFormed where
  length_le := h
  base_lt := Nat.lt_of_lt_of_le (Nat.lt_add_of_pos_right (size_pos _))
    ((child_stop_le_stop h hnumber).trans hb.stop_le)
  size_dvd_base := sizeAt_dvd_child_base hb number

/-- The numbered blocks cover the block. -/
theorem mem_iff_exists_child (h : b.length + newBits ≤ b.family.bits) {address : Nat} :
    address ∈ b ↔ ∃ number < 2 ^ newBits, address ∈ b.child newBits number := by
  have hsize : 0 < b.family.sizeAt (b.length + newBits) := b.family.sizeAt_pos _
  simp only [mem_iff]
  constructor
  · -- The number is how often the size fits into the distance from the start.
    rintro ⟨hbase, hstop⟩
    refine ⟨(address - b.base) / b.family.sizeAt (b.length + newBits), ?_, ?_, ?_⟩
    · rw [Nat.div_lt_iff_lt_mul hsize, ← Family.sizeAt_eq_mul h]
      exact Nat.sub_lt_left_of_lt_add hbase hstop
    · have hdivision := Nat.div_mul_le_self (address - b.base)
        (b.family.sizeAt (b.length + newBits))
      rw [child_base]
      omega
    · have hdivision := Nat.lt_div_mul_add hsize (a := address - b.base)
      rw [stop, child_base, child_size]
      omega
  · rintro ⟨number, hnumber, hbase, hstop⟩
    exact ⟨(Nat.le_add_right _ _).trans hbase, hstop.trans_le (child_stop_le_stop h hnumber)⟩

/-! ## Blocks of one size -/

theorem placed_child (hb : b.IsWellFormed) (newBits number : Nat) :
    Placed b (b.child newBits number).base newBits (b.child newBits number) where
  family_eq := rfl
  length_eq := rfl
  isLeast_base := ⟨⟨sizeAt_dvd_child_base hb number, Nat.le_refl _⟩, fun _ h => h.2⟩

theorem child_zero_base (b : Block) (newBits : Nat) : (b.child newBits 0).base = b.base := by
  rw [child_base, Nat.zero_mul, Nat.add_zero]

/-- Blocks of one size are packed in the order of their numbers. -/
theorem packs_replicate (hb : b.IsWellFormed) (newBits number count : Nat) :
    b.Packs (b.child newBits number).base (List.replicate count (newBits : Int))
      ((List.range' number count).map (b.child newBits)) := by
  induction count generalizing number with
  | zero => exact .nil
  | succ count ih =>
    rw [List.replicate_succ, List.range'_succ, List.map_cons]
    refine .cons (placed_child hb newBits number) ?_
    -- The end of this block is a multiple of the size, so nothing is left out.
    rw [child_stop]
    exact ih (number + 1)

/-- The numbered blocks are allocated as far as there are any. -/
theorem allocate_replicate (hb : b.IsWellFormed) {count position : Nat} (hpositive : 1 ≤ newBits)
    (h : b.length + newBits ≤ b.family.bits) (hcount : count ≤ 2 ^ newBits) :
    b.allocate b.base position (List.replicate count (newBits : Int)) =
      .ok ((List.range count).map (b.child newBits)) := by
  have hpacks := packs_replicate hb newBits 0 count
  rw [child_zero_base, ← List.range_eq_range'] at hpacks
  refine allocate_eq_ok_iff.mpr ⟨fun bits hbits => ?_, hpacks, ?_⟩
  · rw [List.eq_of_mem_replicate hbits]
    omega
  · rw [List.forall_mem_map]
    intro number hnumber
    exact child_stop_le_stop h ((List.mem_range.mp hnumber).trans_le hcount)

theorem refuses_replicate (hb : b.IsWellFormed) {count : Nat} (hcount : 1 ≤ count)
    (h : b.family.bits < b.length + newBits ∨ 2 ^ newBits < count) :
    b.Refuses (List.replicate count (newBits : Int)) := by
  have hmem : (newBits : Int) ∈ List.replicate count (newBits : Int) :=
    List.mem_replicate.mpr ⟨by omega, rfl⟩
  rcases Nat.lt_or_ge b.family.bits (b.length + newBits) with hbeyond | hwidth
  · exact .inr (.inl ⟨newBits, hmem, by exact_mod_cast hbeyond⟩)
  · -- The block behind the last number starts where the whole ends.
    have hfull := h.resolve_left (Nat.not_lt_of_le hwidth)
    have hpacks := packs_replicate hb newBits 0 count
    rw [child_zero_base, ← List.range_eq_range'] at hpacks
    refine .inr (.inr ⟨_, hpacks, b.child newBits (2 ^ newBits), ?_, ?_⟩)
    · exact List.mem_map_of_mem (List.mem_range.mpr hfull)
    · rw [stop_eq_child_base hwidth]
      exact Nat.lt_add_of_pos_right (size_pos _)

end Groundplan.Network.Block

namespace Groundplan.Library

open Network (Block)

variable {written : String} {b : Block}

/-! ## The functions on prefixes -/

/-- A call of the function returns the block with the number, or rejects one of its two numbers. -/
theorem subnet_cases (hread : Block.read? written = some b) (newBits number : Int) :
    (∃ more place : Nat, newBits = more ∧ number = place ∧ b.length + more ≤ b.family.bits
        ∧ place < 2 ^ more ∧ subnet written newBits number = .ok (b.child more place).text)
      ∨ ((newBits < 0 ∨ b.family.bits < b.length + newBits)
        ∧ Rejected "cidrsubnet" newBits (subnet written newBits number))
      ∨ ((number < 0 ∨ (2 ^ newBits.toNat : Nat) ≤ number)
        ∧ Rejected "cidrsubnet" number (subnet written newBits number)) := by
  rw [subnet, networkBlock_bind hread]
  -- The cases follow the order of the checks, each of which shows the number that it refuses.
  by_cases hnegative : newBits < 0
  · refine .inr (.inl ⟨.inl hnegative, ?_⟩)
    rw [if_pos hnegative]
    exact .of_writeInt fun _ => ⟨_, rfl⟩
  by_cases hwidth : b.family.bits < b.length + newBits
  · refine .inr (.inl ⟨.inr hwidth, ?_⟩)
    rw [if_neg hnegative, if_pos hwidth]
    exact .of_writeInt fun _ => ⟨_, rfl⟩
  by_cases hnumber : number < 0 ∨ (2 ^ newBits.toNat : Nat) ≤ number
  · refine .inr (.inr ⟨hnumber, ?_⟩)
    rw [if_neg hnegative, if_neg hwidth, if_pos (by simpa using hnumber)]
    exact .of_writeInt fun _ => ⟨_, rfl⟩
  · refine .inl ⟨newBits.toNat, number.toNat, by omega, by omega, by omega, by omega, ?_⟩
    rw [if_neg hnegative, if_neg hwidth, if_neg (by simpa using hnumber)]
    rfl

theorem subnet_eq_ok (hread : Block.read? written = some b) {newBits number : Nat}
    (h : b.length + newBits ≤ b.family.bits) (hnumber : number < 2 ^ newBits) :
    subnet written newBits number = .ok (b.child newBits number).text := by
  obtain ⟨more, place, hmore, hplace, -, -, hsubnet⟩ | ⟨houtside, -⟩ | ⟨houtside, -⟩ :=
    subnet_cases hread newBits number
  · obtain rfl := Int.ofNat_inj.mp hmore
    obtain rfl := Int.ofNat_inj.mp hplace
    exact hsubnet
  · omega
  · rw [Int.toNat_natCast] at houtside
    omega

theorem rejected_subnet (hread : Block.read? written = some b) {newBits : Nat} {number : Int}
    (h : b.length + newBits ≤ b.family.bits) (hnumber : number < 0 ∨ (2 ^ newBits : Nat) ≤ number) :
    Rejected "cidrsubnet" number (subnet written newBits number) := by
  obtain ⟨more, place, hmore, hplace, -, hinside, -⟩ | ⟨houtside, -⟩ | ⟨-, hrejected⟩ :=
    subnet_cases hread newBits number
  · obtain rfl := Int.ofNat_inj.mp hmore
    omega
  · omega
  · exact hrejected

/-- Allocation of blocks of one size gives what the numbers give. -/
theorem subnets_replicate (hread : Block.read? written = some b) {newBits count : Nat}
    (hpositive : 1 ≤ newBits) (h : b.length + newBits ≤ b.family.bits)
    (hcount : count ≤ 2 ^ newBits) :
    ∃ texts, subnets written (List.replicate count (newBits : Int)) = .ok texts
      ∧ (List.range count).mapM (fun number : Nat => subnet written newBits number) =
        .ok texts := by
  have hb := Block.isWellFormed_of_read? hread
  refine ⟨_, subnets_of_allocate hread (Block.allocate_replicate hb hpositive h hcount), ?_⟩
  rw [List.map_map]
  exact mapM_eq_ok fun number hnumber =>
    subnet_eq_ok hread h ((List.mem_range.mp hnumber).trans_le hcount)

/-- The numbered blocks partition a block, and allocation of blocks of one size follows their
numbers.  Both functions refuse what lies outside, provided that the number that they show can be
written. -/
theorem subnet_partition (hread : Block.read? written = some b) (newBits : Nat) :
    (b.length + newBits ≤ b.family.bits →
      (∀ number : Nat, number < 2 ^ newBits →
        subnet written newBits number = .ok (b.child newBits number).text
          ∧ Block.read? (b.child newBits number).text = some (b.child newBits number))
      ∧ (∀ number number', number < number' →
        (b.child newBits number).stop ≤ (b.child newBits number').base)
      ∧ (∀ address, address ∈ b ↔ ∃ number < 2 ^ newBits, address ∈ b.child newBits number)
      ∧ ∀ number : Int, number < 0 ∨ (2 ^ newBits : Nat) ≤ number →
        number.natAbs < 10 ^ digitLimit → Refused "cidrsubnet" (subnet written newBits number))
    ∧ (1 ≤ newBits → ∀ count, 1 ≤ count →
      (b.length + newBits ≤ b.family.bits → count ≤ 2 ^ newBits →
        ∃ texts, subnets written (List.replicate count (newBits : Int)) = .ok texts
          ∧ (List.range count).mapM (fun number : Nat => subnet written newBits number) =
            .ok texts)
      ∧ (b.family.bits < b.length + newBits ∨ 2 ^ newBits < count →
        (∀ texts, subnets written (List.replicate count (newBits : Int)) ≠ .ok texts)
          ∧ (newBits < 10 ^ digitLimit →
            Refused "cidrsubnets" (subnets written (List.replicate count (newBits : Int))))))
    ∧ ∀ size number : Decimal, size.isWhole = true → number.isWhole = true →
      Answers "cidrsubnet" [.string written, .number size, .number number]
        ((subnet written size.toInt number.toInt).map .string) := by
  have hb := Block.isWellFormed_of_read? hread
  refine ⟨fun h => ⟨?numbered, ?ascending, ?covered, ?refused⟩, fun hpositive count hcount =>
    ⟨subnets_replicate hread hpositive, fun houtside => ?full⟩,
    fun size number => answers_subnet written⟩
  case numbered =>
    intro number hnumber
    exact ⟨subnet_eq_ok hread h hnumber, Block.read?_text (hb.child h hnumber)⟩
  case ascending =>
    intro number number' hlt
    rw [Block.child_stop]
    exact Block.child_base_le_child_base hlt
  case covered => exact fun address => Block.mem_iff_exists_child h
  case refused =>
    intro number hnumber hdigits
    exact (rejected_subnet hread h hnumber).refused hdigits
  case full =>
    have hrefuses := Block.refuses_replicate hb hcount houtside
    refine ⟨fun texts htexts => (exists_subnets_iff hread).mp ⟨texts, htexts⟩ hrefuses,
      fun hdigits => (refused_subnets_iff hread ?_).mpr hrefuses⟩
    intro bits hbits
    rwa [List.eq_of_mem_replicate hbits, Int.natAbs_natCast]

/-- Two blocks of IPv6, and the first number behind the last block. -/
theorem subnet_partition_v6 :
    let written := "fd00:fd12:3456:7890::/56"
    let b : Block := ⟨.v6, 0xfd00fd12345678 * 2 ^ 72, 56⟩
    let size : Decimal := ⟨false, 16, 0⟩
    let number : Decimal := ⟨false, 162, 0⟩
    Block.read? written = some b ∧ b.length + 16 ≤ b.family.bits
      ∧ standard.call "cidrsubnet" [.string written, .number size, .number number] none =
        .ok (.string "fd00:fd12:3456:7800:a200::/72")
      ∧ Refused "cidrsubnet" (subnet written 16 65536)
      ∧ ∃ texts, subnets written [16, 16] = .ok texts
        ∧ (List.range 2).mapM (fun number : Nat => subnet written 16 number) = .ok texts := by
  intro written b size number
  have hread : Block.read? written = some b := by decide +kernel
  have hwidth : b.length + 16 ≤ b.family.bits := by decide
  have htext : (b.child 16 162).text = "fd00:fd12:3456:7800:a200::/72" := by decide +kernel
  obtain ⟨hpartition, hallocated, hanswers⟩ := subnet_partition hread 16
  obtain ⟨hnumbered, -, -, hrefused⟩ := hpartition hwidth
  have hsubnet : subnet written 16 162 = .ok "fd00:fd12:3456:7800:a200::/72" :=
    htext ▸ (hnumbered 162 (by decide)).1
  have hcall := (hanswers size number rfl rfl).value _ (congrArg (Except.map Value.string) hsubnet)
  exact ⟨hread, hwidth, hcall none, hrefused 65536 (.inr (by decide)) (by decide +kernel),
    (hallocated (by decide) 2 (by decide)).1 hwidth (by decide)⟩

/-- A number of 4301 digits is refused by no problem of the function. -/
theorem subnet_unshowable :
    let number : Int := ((10 ^ digitLimit : Nat) : Int)
    ∃ b, Block.read? "10.0.0.0/8" = some b ∧ b.length + 8 ≤ b.family.bits
      ∧ (2 ^ 8 : Nat) ≤ number ∧ ¬ Refused "cidrsubnet" (subnet "10.0.0.0/8" 8 number) := by
  intro number
  have hread : Block.read? "10.0.0.0/8" = some ⟨.v4, 0x0A000000, 8⟩ := by decide +kernel
  have hlarge : ((2 ^ 8 : Nat) : Int) ≤ number := Int.ofNat_le.mpr (two_pow_le (by decide))
  have hrejected : Rejected "cidrsubnet" number (subnet "10.0.0.0/8" 8 number) :=
    rejected_subnet hread (by decide) (.inr hlarge)
  exact ⟨_, hread, by decide, hlarge,
    hrejected.not_refused (Int.natAbs_natCast _).ge⟩

end Groundplan.Library
