import Groundplan.Network.Prefix
import Groundplan.Proofs.Network.Address

/-!
# Prefixes Are Read Back

A block that was read starts at a multiple of its size, inside the addresses of its family.  Such a
block is read back from its text.  The bits of an address behind the prefix do not count.

## Main Definitions

- `Network.Block.IsWellFormed`: blocks that a prefix can write
- `Network.Block.stop`: the end of a block; `address ∈ b`: the addresses of a block

## Main Statements

- `Network.Block.isWellFormed_of_read?`: what is read is well-formed
- `Network.Block.read?_text`: a well-formed block is read back
-/

namespace Groundplan.Network

/-! ## Sizes -/

namespace Family

theorem sizeAt_eq (family : Family) (length : Nat) :
    family.sizeAt length = 2 ^ (family.bits - length) :=
  rfl

theorem sizeAt_pos (family : Family) (length : Nat) : 0 < family.sizeAt length :=
  Nat.two_pow_pos _

/-- There are `2 ^ more` blocks of a longer prefix in one of a shorter prefix. -/
theorem sizeAt_eq_mul {family : Family} {length more : Nat} (h : length + more ≤ family.bits) :
    family.sizeAt length = 2 ^ more * family.sizeAt (length + more) := by
  rw [sizeAt_eq, sizeAt_eq, ← Nat.pow_add]
  congr 1
  omega

theorem sizeAt_dvd (family : Family) (length : Nat) :
    family.sizeAt length ∣ 2 ^ family.bits :=
  Nat.pow_dvd_pow 2 (Nat.sub_le _ _)

end Family

namespace Block

variable {b : Block} {address : Nat}

/-- The first address behind a block. -/
def stop (b : Block) : Nat :=
  b.base + b.size

/-- The addresses of a block. -/
instance : Membership Nat Block :=
  ⟨fun b address => b.base ≤ address ∧ address < b.stop⟩

theorem mem_iff : address ∈ b ↔ b.base ≤ address ∧ address < b.stop :=
  Iff.rfl

/-- The block starts at a multiple of its size, and its prefix fits the addresses. -/
structure IsWellFormed (b : Block) : Prop where
  length_le : b.length ≤ b.family.bits
  base_lt : b.base < 2 ^ b.family.bits
  size_dvd_base : b.size ∣ b.base

theorem size_pos (b : Block) : 0 < b.size :=
  b.family.sizeAt_pos b.length

/-- The next multiple is not beyond another one that is greater. -/
theorem add_le_of_dvd {size n m : Nat} (hn : size ∣ n) (hm : size ∣ m) (h : n < m) :
    n + size ≤ m := by
  -- The distance is a positive multiple, so it is at least the size.
  have hgap : size ∣ m - n := Nat.dvd_sub hm hn
  have hle := Nat.le_of_dvd (Nat.sub_pos_of_lt h) hgap
  omega

theorem IsWellFormed.stop_le (h : b.IsWellFormed) : b.stop ≤ 2 ^ b.family.bits :=
  add_le_of_dvd h.size_dvd_base (b.family.sizeAt_dvd b.length) h.base_lt

/-! ## Reading -/

section Reading

variable {family : Family} {length : Nat} {text : String}

theorem readCount?_le (h : readCount? family text = some length) : length ≤ family.bits := by
  unfold readCount? at h
  dsimp only at h
  split_ifs at h with _ hle
  cases h
  exact hle

theorem maskLength?_le {mask : Nat} (h : maskLength? mask = some length) : length ≤ 32 :=
  Nat.le_of_lt_succ (List.mem_range.mp (List.mem_of_find?_eq_some h))

theorem readLength?_le (h : readLength? family text = some length) : length ≤ family.bits := by
  unfold readLength? at h
  split at h
  · cases h
    exact readCount?_le ‹_›
  · cases h
  · obtain ⟨mask, _, h⟩ := Option.bind_eq_some_iff.mp h
    rcases Option.or_eq_some_iff.mp h with hmask | ⟨_, hmask⟩
    · exact maskLength?_le hmask
    · exact maskLength?_le hmask

theorem readLength?_toString (h : length ≤ family.bits) :
    readLength? family (toString length) = some length := by
  have hcount : readCount? family (toString length) = some length := by
    have hall : ∀ f : Family, ∀ n ≤ f.bits, readCount? f (toString n) = some n := by
      intro f
      cases f <;> decide +kernel
    exact hall family length h
  simp only [readLength?, hcount]

theorem isWellFormed_around (haddress : address < 2 ^ family.bits)
    (hlength : length ≤ family.bits) : (around family address length).IsWellFormed where
  length_le := hlength
  base_lt := Nat.lt_of_le_of_lt (Nat.div_mul_le_self _ _) haddress
  size_dvd_base := Nat.dvd_mul_left _ _

theorem around_base (h : b.IsWellFormed) : around b.family b.base b.length = b := by
  have hbase : b.base / b.family.sizeAt b.length * b.family.sizeAt b.length = b.base :=
    Nat.div_mul_cancel h.size_dvd_base
  rw [around, hbase]

theorem isWellFormed_of_readOf? {written : String} (h : readOf? family written text = some b) :
    b.IsWellFormed := by
  obtain ⟨address, haddress, h⟩ := Option.bind_eq_some_iff.mp h
  obtain ⟨length, hlength, h⟩ := Option.bind_eq_some_iff.mp h
  cases h
  exact isWellFormed_around (readAddress?_lt haddress) (readLength?_le hlength)

/-- What a text writes is a well-formed block. -/
theorem isWellFormed_of_read? (h : read? text = some b) : b.IsWellFormed := by
  unfold read? at h
  split at h
  · rcases Option.or_eq_some_iff.mp h with hv4 | ⟨_, hv6⟩
    · exact isWellFormed_of_readOf? hv4
    · exact isWellFormed_of_readOf? hv6
  · cases h

/-- A prefix has a slash in it. -/
theorem mem_of_read? (h : read? text = some b) : '/' ∈ text.toList := by
  by_contra hslash
  rw [read?, Text.splitOn_of_not_mem rfl hslash] at h
  cases h

/-- A well-formed block is read back from its text. -/
theorem read?_text (h : b.IsWellFormed) : read? b.text = some b := by
  have htext : b.text = "/".intercalate [addressText b.family b.base, toString b.length] := by
    rw [String.intercalate_cons_of_ne_nil (List.cons_ne_nil _ _), String.intercalate_singleton,
      text]
  have hsplit : Text.splitOn "/" b.text = [addressText b.family b.base, toString b.length] := by
    rw [htext]
    refine Text.splitOn_intercalate rfl (List.cons_ne_nil _ _) ?_
    simp only [List.forall_mem_cons]
    exact ⟨not_mem_addressText _ _, not_mem_toString rfl _, List.forall_mem_nil _⟩
  have hread : readOf? b.family (addressText b.family b.base) (toString b.length) = some b := by
    rw [readOf?, readAddress?_addressText h.base_lt, readLength?_toString h.length_le]
    exact congrArg some (around_base h)
  -- An IPv6 prefix is tried as one of IPv4 first.
  rw [read?, hsplit]
  cases hfamily : b.family with
  | v4 =>
    rw [hfamily] at hread
    simp only [hread, Option.some_or]
  | v6 =>
    rw [hfamily] at hread
    have hother : readOf? .v4 (addressText .v6 b.base) (toString b.length) = none := by
      rw [readOf?, readAddress?, addressText, readV4?_v6Text]
      rfl
    simp only [hread, hother, Option.none_or]

end Reading

end Block

end Groundplan.Network
