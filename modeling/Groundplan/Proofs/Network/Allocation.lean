import Groundplan.Network.Subnet
import Groundplan.Proofs.Network.Call
import Mathlib.Order.Bounds.Basic

/-!
# Allocation of Blocks

Blocks are packed into a block one after another, each at the first address behind the last one at
which a block of its size can start.  What packs is determined by the sizes alone, and whether the
packed blocks lie inside decides between success and refusal.

## Main Definitions

- `Network.Block.Packs`: blocks of some sizes, packed from an address on
- `Network.Block.Refuses`: sizes that cannot be allocated

## Main Statements

- `Network.Block.place_eq_ok_iff`: the step for one block
- `Network.Block.allocate_eq_ok_iff`: the run over all sizes
- `Network.Block.exists_allocate_iff`: when an allocation succeeds
- `Library.subnets_packed`: what the function on prefixes returns and when it refuses
-/

namespace Groundplan.Network.Block

variable {b found found' : Block} {cursor : Nat} {bits : Int} {newBits : List Int}
  {blocks blocks' : List Block}

/-! ## One block -/

/-- Rounding up gives the least multiple that is not below. -/
theorem isLeast_alignUp (cursor : Nat) {size : Nat} (hsize : 0 < size) :
    IsLeast {address | size ∣ address ∧ cursor ≤ address} (alignUp cursor size) := by
  have hdivision := Nat.div_add_mod (cursor + size - 1) size
  have hrest := Nat.mod_lt (cursor + size - 1) hsize
  refine ⟨⟨Nat.dvd_mul_left _ _, ?_⟩, ?_⟩
  · rw [alignUp, Nat.mul_comm]
    omega
  · -- A multiple with a smaller count lies below what is rounded up.
    rintro address ⟨⟨count, rfl⟩, hle⟩
    rw [alignUp, Nat.mul_comm size]
    refine Nat.mul_le_mul_right size (Nat.le_of_lt_succ ?_)
    rw [Nat.div_lt_iff_lt_mul hsize, Nat.succ_mul, Nat.mul_comm count]
    omega

/-- A block with some more leading bits at the first suitable address not below `cursor`. -/
structure Placed (b : Block) (cursor : Nat) (bits : Int) (found : Block) : Prop where
  family_eq : found.family = b.family
  length_eq : (found.length : Int) = b.length + bits
  isLeast_base : IsLeast {address | found.size ∣ address ∧ cursor ≤ address} found.base

namespace Placed

theorem le_base (h : Placed b cursor bits found) : cursor ≤ found.base :=
  h.isLeast_base.1.2

theorem size_dvd_base (h : Placed b cursor bits found) : found.size ∣ found.base :=
  h.isLeast_base.1.1

theorem unique (h : Placed b cursor bits found) (h' : Placed b cursor bits found') :
    found = found' := by
  obtain ⟨family, base, length⟩ := found
  obtain ⟨family', base', length'⟩ := found'
  obtain ⟨rfl, hlength, hbase⟩ := h
  obtain ⟨rfl, hlength', hbase'⟩ := h'
  obtain rfl : length = length' := by
    dsimp only at hlength hlength'
    omega
  obtain rfl : base = base' := hbase.unique hbase'
  rfl

end Placed

/-- There is always such a block, though it may lie beyond the addresses. -/
theorem placed_alignUp (b : Block) (cursor : Nat) (hbits : 0 ≤ bits) :
    Placed b cursor bits ⟨b.family,
      alignUp cursor (b.family.sizeAt (b.length + bits.toNat)), b.length + bits.toNat⟩ where
  family_eq := rfl
  length_eq := by
    dsimp only
    omega
  isLeast_base := isLeast_alignUp cursor (b.family.sizeAt_pos _)

/-- Placing a block succeeds if the block fits. -/
theorem place_eq_ok_iff : b.place cursor bits = .ok found ↔
    (1 ≤ bits ∧ b.length + bits ≤ b.family.bits) ∧ Placed b cursor bits found
      ∧ found.stop ≤ b.stop := by
  unfold place
  dsimp only
  split_ifs with hbits hwidth hfull
  · simp only [false_iff]
    rintro ⟨⟨hone, -⟩, -⟩
    omega
  · simp only [false_iff]
    rintro ⟨⟨-, hfits⟩, -⟩
    omega
  · -- Only one block can be placed, so the one that does not fit is the one in question.
    simp only [false_iff]
    rintro ⟨-, hplaced, hstop⟩
    rw [hplaced.unique (placed_alignUp b cursor (by omega))] at hstop
    exact absurd hfull (Nat.not_lt_of_le hstop)
  · constructor
    · intro h
      cases h
      exact ⟨by omega, placed_alignUp b cursor (by omega), Nat.le_of_not_lt hfull⟩
    · rintro ⟨-, hplaced, -⟩
      rw [hplaced.unique (placed_alignUp b cursor (by omega))]

/-! ## All blocks -/

/-- Blocks with so many more leading bits each, placed one behind another from `cursor` on. -/
inductive Packs (b : Block) : Nat → List Int → List Block → Prop where
  | nil {cursor : Nat} : Packs b cursor [] []
  | cons {cursor : Nat} {bits : Int} {newBits : List Int} {found : Block} {blocks : List Block}
      (hplaced : Placed b cursor bits found) (hrest : Packs b found.stop newBits blocks) :
      Packs b cursor (bits :: newBits) (found :: blocks)

namespace Packs

theorem unique (h : Packs b cursor newBits blocks) (h' : Packs b cursor newBits blocks') :
    blocks = blocks' := by
  induction h generalizing blocks' with
  | nil =>
    cases h'
    rfl
  | cons hplaced _ ih =>
    cases h' with
    | cons hplaced' hrest' =>
      obtain rfl := hplaced.unique hplaced'
      rw [ih hrest']

theorem le_base (h : Packs b cursor newBits blocks) : ∀ found ∈ blocks, cursor ≤ found.base := by
  induction h with
  | nil => exact List.forall_mem_nil _
  | cons hplaced _ ih =>
    refine List.forall_mem_cons.mpr ⟨hplaced.le_base, fun found hfound => ?_⟩
    exact (hplaced.le_base.trans (Nat.le_add_right _ _)).trans (ih found hfound)

/-- Every block ends before the later ones start. -/
theorem pairwise (h : Packs b cursor newBits blocks) :
    blocks.Pairwise fun found next => found.stop ≤ next.base := by
  induction h with
  | nil => exact .nil
  | cons _ hrest ih => exact .cons hrest.le_base ih

theorem map_length (h : Packs b cursor newBits blocks) :
    blocks.map (fun found => (found.length : Int)) =
      newBits.map fun bits => (b.length : Int) + bits := by
  induction h with
  | nil => rfl
  | cons hplaced _ ih => rw [List.map_cons, List.map_cons, ih, hplaced.length_eq]

theorem exists_placed (h : Packs b cursor newBits blocks) :
    ∀ found ∈ blocks, ∃ start, ∃ bits ∈ newBits, Placed b start bits found := by
  induction h with
  | nil => exact List.forall_mem_nil _
  | @cons cursor bits _ _ _ hplaced _ ih =>
    refine List.forall_mem_cons.mpr ⟨⟨cursor, bits, List.mem_cons_self, hplaced⟩, fun f hf => ?_⟩
    obtain ⟨start, bits, hbits, hplaced⟩ := ih f hf
    exact ⟨start, bits, List.mem_cons_of_mem _ hbits, hplaced⟩

end Packs

theorem exists_packs (b : Block) (cursor : Nat) (h : ∀ bits ∈ newBits, 1 ≤ bits) :
    ∃ blocks, b.Packs cursor newBits blocks := by
  induction newBits generalizing cursor with
  | nil => exact ⟨[], .nil⟩
  | cons bits newBits ih =>
    obtain ⟨hbits, hrest⟩ := List.forall_mem_cons.mp h
    obtain ⟨blocks, hpacks⟩ := ih _ hrest
    exact ⟨_, .cons (placed_alignUp b cursor (by omega)) hpacks⟩

/-- An allocation succeeds with the packed blocks if all of them lie inside. -/
theorem allocate_eq_ok_iff {position : Nat} :
    b.allocate cursor position newBits = .ok blocks ↔
      (∀ bits ∈ newBits, 1 ≤ bits ∧ b.length + bits ≤ b.family.bits)
        ∧ b.Packs cursor newBits blocks ∧ ∀ found ∈ blocks, found.stop ≤ b.stop := by
  -- The next block is placed from the end of this one on, so the cursor is generalized.
  induction newBits generalizing cursor position blocks with
  | nil =>
    constructor
    · intro h
      cases h
      exact ⟨List.forall_mem_nil _, .nil, List.forall_mem_nil _⟩
    · rintro ⟨-, hpacks, -⟩
      cases hpacks
      rfl
  | cons bits newBits ih =>
    rw [allocate]
    constructor
    · intro h
      split at h
      · cases h
      · next found hplace =>
        obtain ⟨rest, hrest, h⟩ := bind_eq_ok_iff.mp h
        cases h
        obtain ⟨hbits, hplaced, hstop⟩ := place_eq_ok_iff.mp hplace
        obtain ⟨hfits, hpacks, hstops⟩ := ih.mp hrest
        exact ⟨List.forall_mem_cons.mpr ⟨hbits, hfits⟩, .cons hplaced hpacks,
          List.forall_mem_cons.mpr ⟨hstop, hstops⟩⟩
    · rintro ⟨hfits, hpacks, hstops⟩
      cases hpacks with
      | cons hplaced hpacks =>
        obtain ⟨hbits, hfits⟩ := List.forall_mem_cons.mp hfits
        obtain ⟨hstop, hstops⟩ := List.forall_mem_cons.mp hstops
        rw [place_eq_ok_iff.mpr ⟨hbits, hplaced, hstop⟩]
        exact bind_eq_ok_iff.mpr ⟨_, ih.mpr ⟨hfits, hpacks, hstops⟩, rfl⟩

/-- A problem names one of the sizes. -/
theorem mem_of_allocate_eq_error {position place : Nat} {problem : AllocationProblem}
    (h : b.allocate cursor position newBits = .error (place, bits, problem)) : bits ∈ newBits := by
  induction newBits generalizing cursor position with
  | nil => cases h
  | cons first newBits ih =>
    rw [allocate] at h
    split at h
    · cases h
      exact List.mem_cons_self
    · rcases bind_eq_error_iff.mp h with hrest | ⟨_, _, hpure⟩
      · exact List.mem_cons_of_mem _ (ih hrest)
      · cases hpure

/-- Sizes that cannot be allocated: one is no part of the block, or not one of its family, or the
packed blocks do not lie inside. -/
def Refuses (b : Block) (newBits : List Int) : Prop :=
  (∃ bits ∈ newBits, bits < 1) ∨ (∃ bits ∈ newBits, (b.family.bits : Int) < b.length + bits)
    ∨ ∃ blocks, b.Packs b.base newBits blocks ∧ ∃ found ∈ blocks, b.stop < found.stop

theorem exists_allocate_iff (position : Nat) :
    (∃ blocks, b.allocate b.base position newBits = .ok blocks) ↔ ¬ b.Refuses newBits := by
  simp only [allocate_eq_ok_iff, Refuses, not_or, not_exists, not_and, not_lt]
  constructor
  · rintro ⟨blocks, hfits, hpacks, hstops⟩
    refine ⟨fun bits hbits => (hfits bits hbits).1, fun bits hbits => (hfits bits hbits).2, ?_⟩
    -- What packs is unique: any packing is the one that was allocated.
    intro blocks' hpacks'
    rwa [hpacks'.unique hpacks]
  · rintro ⟨hpositive, hfits, hstops⟩
    obtain ⟨blocks, hpacks⟩ := exists_packs b b.base hpositive
    exact ⟨blocks, fun bits hbits => ⟨hpositive bits hbits, hfits bits hbits⟩, hpacks,
      hstops blocks hpacks⟩

/-- A block that lies inside is read back from its text. -/
theorem IsWellFormed.of_placed (hb : b.IsWellFormed) (hfits : b.length + bits ≤ b.family.bits)
    (hplaced : Placed b cursor bits found) (hstop : found.stop ≤ b.stop) :
    found.IsWellFormed where
  length_le := by
    have hlength := hplaced.length_eq
    rw [hplaced.family_eq]
    omega
  base_lt := by
    rw [hplaced.family_eq]
    exact Nat.lt_of_lt_of_le (Nat.lt_add_of_pos_right found.size_pos) (hstop.trans hb.stop_le)
  size_dvd_base := hplaced.size_dvd_base

end Groundplan.Network.Block

namespace Groundplan.Library

open Network (Block)

variable {written : String} {b : Block} {newBits : List Int}

/-! ## The function on prefixes -/

theorem subnets_of_allocate (hread : Block.read? written = some b) {blocks : List Block}
    (h : b.allocate b.base 2 newBits = .ok blocks) :
    subnets written newBits = .ok (blocks.map Block.text) := by
  simp only [subnets, networkBlock_bind hread, h]
  rfl

/-- A failed allocation is a refusal.  Its problem shows the size unless the block is full. -/
theorem subnets_of_error (hread : Block.read? written = some b) {position : Nat} {bits : Int}
    {problem : Block.AllocationProblem}
    (h : b.allocate b.base 2 newBits = .error (position, bits, problem)) :
    ((∃ length, problem = .full length) ∧ Refused "cidrsubnets" (subnets written newBits))
      ∨ Rejected "cidrsubnets" bits (subnets written newBits) := by
  simp only [subnets, networkBlock_bind hread, h]
  cases problem with
  | noNewBits => exact .inr (.of_writeInt fun shown => ⟨_, rfl⟩)
  | beyondWidth => exact .inr (.of_writeInt fun shown => ⟨_, rfl⟩)
  | full length => exact .inl ⟨⟨length, rfl⟩, _, rfl⟩

/-- What the function returns is what is allocated. -/
theorem subnets_eq_ok_iff (hread : Block.read? written = some b) {texts : List String} :
    subnets written newBits = .ok texts ↔
      ∃ blocks, b.allocate b.base 2 newBits = .ok blocks ∧ blocks.map Block.text = texts := by
  cases hallocate : b.allocate b.base 2 newBits with
  | ok blocks =>
    rw [subnets_of_allocate hread hallocate]
    simp
  | error failure =>
    constructor
    · intro h
      rcases subnets_of_error hread hallocate with ⟨-, hrefused⟩ | hrejected
      · exact absurd h (hrefused.ne_ok texts)
      · exact absurd h (hrejected.ne_ok texts)
    · rintro ⟨_, h, -⟩
      cases h

theorem exists_subnets_iff (hread : Block.read? written = some b) :
    (∃ texts, subnets written newBits = .ok texts) ↔ ¬ b.Refuses newBits := by
  rw [← Block.exists_allocate_iff 2]
  constructor
  · rintro ⟨texts, h⟩
    obtain ⟨blocks, hallocate, -⟩ := (subnets_eq_ok_iff hread).mp h
    exact ⟨blocks, hallocate⟩
  · rintro ⟨blocks, h⟩
    exact ⟨_, subnets_of_allocate hread h⟩

theorem refused_subnets_iff (hread : Block.read? written = some b)
    (hdigits : ∀ bits ∈ newBits, bits.natAbs < 10 ^ digitLimit) :
    Refused "cidrsubnets" (subnets written newBits) ↔ b.Refuses newBits := by
  constructor
  · intro hrefused
    by_contra hfits
    obtain ⟨texts, h⟩ := (exists_subnets_iff hread).mpr hfits
    exact hrefused.ne_ok texts h
  · intro hrefuses
    cases hallocate : b.allocate b.base 2 newBits with
    | ok blocks => exact absurd hrefuses ((Block.exists_allocate_iff 2).mp ⟨blocks, hallocate⟩)
    | error failure =>
      obtain ⟨position, bits, problem⟩ := failure
      have hbits := hdigits bits (Block.mem_of_allocate_eq_error hallocate)
      rcases subnets_of_error hread hallocate with ⟨-, hrefused⟩ | hrejected
      · exact hrefused
      · exact hrejected.refused hbits

/-- Blocks of given sizes are allocated greedily.  What the function returns reads back as blocks
with so many more leading bits each: every one starts at the first multiple of its size that is not
in front of the end of the last one, so they lie inside in ascending order.  It refuses sizes
exactly if one is not positive or too large, or if a block that is placed so does not lie inside,
provided that the sizes can be shown. -/
theorem subnets_packed (hread : Block.read? written = some b) (newBits : List Int) :
    (∀ texts, subnets written newBits = .ok texts →
      ∃ blocks, texts = blocks.map Block.text ∧ b.Packs b.base newBits blocks
        ∧ blocks.map (fun found => (found.length : Int)) =
          newBits.map (fun bits => (b.length : Int) + bits)
        ∧ (∀ found ∈ blocks, Block.read? found.text = some found ∧ found.family = b.family
          ∧ found.size ∣ found.base ∧ b.base ≤ found.base ∧ found.stop ≤ b.stop)
        ∧ blocks.Pairwise fun found next => found.stop ≤ next.base)
    ∧ ((∃ texts, subnets written newBits = .ok texts) ↔ ¬ b.Refuses newBits)
    ∧ ((∀ bits ∈ newBits, bits.natAbs < 10 ^ digitLimit) →
      (Refused "cidrsubnets" (subnets written newBits) ↔ b.Refuses newBits))
    ∧ ∀ sizes : List Decimal, sizes ≠ [] → (∀ n ∈ sizes, n.isWhole = true) →
      sizes.map Decimal.toInt = newBits →
      Answers "cidrsubnets" (.string written :: sizes.map .number)
        ((subnets written newBits).map fun texts => .list (texts.map .string)) := by
  refine ⟨?returned, exists_subnets_iff hread, refused_subnets_iff hread, ?called⟩
  case returned =>
    intro texts h
    obtain ⟨blocks, hallocate, rfl⟩ := (subnets_eq_ok_iff hread).mp h
    obtain ⟨hfits, hpacks, hstops⟩ := Block.allocate_eq_ok_iff.mp hallocate
    refine ⟨blocks, rfl, hpacks, hpacks.map_length, fun found hfound => ?_, hpacks.pairwise⟩
    obtain ⟨start, bits, hbits, hplaced⟩ := hpacks.exists_placed found hfound
    have hwellFormed := (Block.isWellFormed_of_read? hread).of_placed (hfits bits hbits).2 hplaced
      (hstops found hfound)
    exact ⟨Block.read?_text hwellFormed, hplaced.family_eq, hplaced.size_dvd_base,
      hpacks.le_base found hfound, hstops found hfound⟩
  case called =>
    rintro sizes hne hwhole rfl
    exact answers_subnets written hne hwhole

/-- Sizes that add up to less than the range can still fail to fit, for a small block in front. -/
theorem subnets_packed_mixed :
    let b : Block := ⟨.v4, 0x0A010000, 16⟩
    let four : Decimal := ⟨false, 4, 0⟩
    let eight : Decimal := ⟨false, 8, 0⟩
    Block.read? "10.1.0.0/16" = some b ∧ ¬ b.Refuses [4, 4, 8, 4]
      ∧ standard.call "cidrsubnets"
          (.string "10.1.0.0/16" :: [four, four, eight, four].map .number) none =
        .ok (.list (["10.1.0.0/20", "10.1.16.0/20", "10.1.32.0/24", "10.1.48.0/20"].map .string))
      ∧ (∀ bits ∈ [8, 1, 2], Int.natAbs bits < 10 ^ digitLimit)
      ∧ Refused "cidrsubnets" (subnets "10.1.0.0/16" [8, 1, 2]) := by
  intro b four eight
  have hread : Block.read? "10.1.0.0/16" = some b := by decide +kernel
  have hreturned : subnets "10.1.0.0/16" [4, 4, 8, 4] =
      .ok ["10.1.0.0/20", "10.1.16.0/20", "10.1.32.0/24", "10.1.48.0/20"] := by
    have hallocate : b.allocate b.base 2 [4, 4, 8, 4] =
        .ok [⟨.v4, 0x0A010000, 20⟩, ⟨.v4, 0x0A011000, 20⟩, ⟨.v4, 0x0A012000, 24⟩,
          ⟨.v4, 0x0A013000, 20⟩] := by decide +kernel
    exact (subnets_eq_ok_iff hread).mpr ⟨_, hallocate, by decide +kernel⟩
  have hdigits : ∀ bits ∈ [8, 1, 2], Int.natAbs bits < 10 ^ digitLimit := by decide +kernel
  have hfull : ¬ ∃ texts, subnets "10.1.0.0/16" [8, 1, 2] = .ok texts := by
    rintro ⟨texts, h⟩
    obtain ⟨blocks, hallocate, -⟩ := (subnets_eq_ok_iff hread).mp h
    have hfailed : b.allocate b.base 2 [8, 1, 2] = .error (4, 2, .full 18) := by decide +kernel
    rw [hfailed] at hallocate
    cases hallocate
  obtain ⟨-, hfits, -, hanswers⟩ := subnets_packed hread [4, 4, 8, 4]
  have hcall := (hanswers [four, four, eight, four] (by decide) (by decide) rfl).value
  obtain ⟨-, hrefuses, hrefused, -⟩ := subnets_packed hread [8, 1, 2]
  exact ⟨hread, hfits.mp ⟨_, hreturned⟩, hcall _ (by rw [hreturned]; rfl) none, hdigits,
    (hrefused hdigits).mpr (not_not.mp (mt hrefuses.mpr hfull))⟩

/-- A size that cannot be shown is too large, but the function does not come to its problem. -/
theorem not_refused_subnets (hread : Block.read? written = some b) {bits : Nat}
    (hbits : 10 ^ digitLimit ≤ bits) :
    b.Refuses [(bits : Int)] ∧ ¬ Refused "cidrsubnets" (subnets written [(bits : Int)]) := by
  have hwidth : b.family.bits ≤ digitLimit := by
    cases b.family <;> decide
  have hbeyond : b.family.bits < b.length + bits :=
    (Nat.lt_two_pow_self.trans_le (two_pow_le hwidth)).trans_le
      (hbits.trans (Nat.le_add_left _ _))
  have hone : 1 ≤ bits := (Nat.pow_pos (by decide)).trans_le hbits
  refine ⟨.inr (.inl ⟨bits, List.mem_singleton_self _, by exact_mod_cast hbeyond⟩), ?_⟩
  have hplace : b.place b.base bits = .error .beyondWidth := by
    rw [Block.place, if_neg (by omega)]
    exact if_pos hbeyond
  have hallocate : b.allocate b.base 2 [(bits : Int)] = .error (2, bits, .beyondWidth) := by
    rw [Block.allocate, hplace]
  rcases subnets_of_error hread hallocate with ⟨⟨length, hfull⟩, -⟩ | hrejected
  · cases hfull
  · exact hrejected.not_refused (by simpa using hbits)

/-- A size of 4301 digits is refused by no problem of the function. -/
theorem subnets_oversized :
    let bits : Int := ((10 ^ digitLimit : Nat) : Int)
    ∃ b, Block.read? "10.0.0.0/8" = some b ∧ b.Refuses [bits]
      ∧ ¬ Refused "cidrsubnets" (subnets "10.0.0.0/8" [bits]) := by
  intro bits
  have hread : Block.read? "10.0.0.0/8" = some ⟨.v4, 0x0A000000, 8⟩ := by decide +kernel
  exact ⟨_, hread, not_refused_subnets hread (Nat.le_refl (10 ^ digitLimit))⟩

end Groundplan.Library
