import Groundplan.Proofs.Library.Call
import Groundplan.Proofs.Network.Prefix

/-!
# Calls of the Functions on Network Prefixes

A prefix of a valid text and whole numbers pass the checks of a call, so the functions get the block
and the integers.  The numbers that a function refuses are written into its problem, for which they
must not have more digits than may be written.

## Main Definitions

- `Library.Refused`: the function refuses its arguments with a problem of its own
- `Library.Rejected`: the same with a problem that shows a number

## Main Statements

- `Library.networkBlock_eq_ok_iff`: the functions take the block that the prefix writes
- `Library.answers_subnet`, `Library.answers_host`, `Library.answers_subnets`: calls of the library
-/

namespace Groundplan

namespace Library

/-! ## Refusals -/

/-- The function refuses its arguments. -/
def Refused {α : Type} (function : String) (outcome : Outcome α) : Prop :=
  ∃ detail, outcome = fail (.functionCall function detail) none

theorem Refused.ne_ok {α : Type} {function : String} {outcome : Outcome α}
    (h : Refused function outcome) (a : α) : outcome ≠ .ok a := by
  obtain ⟨detail, rfl⟩ := h
  intro hok
  cases hok

/-- Numbers of addresses can be shown. -/
theorem two_pow_le {n : Nat} (h : n ≤ digitLimit) : 2 ^ n ≤ 10 ^ digitLimit :=
  (Nat.pow_le_pow_left (by decide) n).trans (Nat.pow_le_pow_right (by decide) h)

theorem writeInt_eq_ok {i : Int} (h : i.natAbs < 10 ^ digitLimit) :
    writeInt i = .ok (showInt i) := by
  rw [writeInt, Nat.pow_eq, if_neg (Nat.not_le_of_lt h)]

theorem writeInt_eq_error {i : Int} (h : 10 ^ digitLimit ≤ i.natAbs) :
    writeInt i = .error (.defect (.tooManyDigits none)) := by
  rw [writeInt, Nat.pow_eq, if_pos h]

/-- The function refuses its arguments with a problem that shows a number.  If the number is too
long to be written, it does not come to the problem. -/
structure Rejected {α : Type} (function : String) (shown : Int) (outcome : Outcome α) : Prop where
  refused : shown.natAbs < 10 ^ digitLimit → Refused function outcome
  defect : 10 ^ digitLimit ≤ shown.natAbs → outcome = .error (.defect (.tooManyDigits none))

namespace Rejected

variable {α : Type} {function : String} {shown : Int} {outcome : Outcome α}

theorem ne_ok (h : Rejected function shown outcome) (a : α) : outcome ≠ .ok a := by
  rcases Nat.lt_or_ge shown.natAbs (10 ^ digitLimit) with hdigits | hlong
  · exact (h.refused hdigits).ne_ok a
  · rw [h.defect hlong]
    intro hok
    cases hok

theorem not_refused (h : Rejected function shown outcome)
    (hlong : 10 ^ digitLimit ≤ shown.natAbs) : ¬ Refused function outcome := by
  rintro ⟨detail, hrefused⟩
  rw [h.defect hlong] at hrefused
  cases hrefused

theorem of_writeInt {refuse : String → Outcome α}
    (hrefuse : ∀ text, Refused function (refuse text)) :
    Rejected function shown (writeInt shown >>= refuse) where
  refused hdigits := by
    rw [writeInt_eq_ok hdigits]
    exact hrefuse _
  defect hlong := by
    rw [writeInt_eq_error hlong]
    rfl

end Rejected

/-! ## Arguments -/

theorem networkBlock_eq_ok_iff {function written : String} {b : Network.Block} :
    networkBlock function written = .ok b ↔ Network.Block.read? written = some b := by
  constructor
  · intro h
    unfold networkBlock at h
    dsimp only at h
    split_ifs at h
    · cases h
    · split at h
      · next hread =>
        cases h
        exact hread
      · cases h
  · intro h
    have hslash : (!written.toList.contains '/') = false := by
      simpa using Network.Block.mem_of_read? h
    simp only [networkBlock, hslash, h]
    rfl

theorem networkBlock_bind {α : Type} {function written : String} {b : Network.Block}
    (hread : Network.Block.read? written = some b) (f : Network.Block → Outcome α) :
    networkBlock function written >>= f = f b := by
  rw [networkBlock_eq_ok_iff.mpr hread]
  rfl

theorem wholeNumber_eq_ok {function : String} {position : Int} {n : Decimal}
    (h : n.isWhole = true) : wholeNumber function position (.number n) = .ok n.toInt :=
  if_pos h

theorem wholeNumbers_eq_ok {function : String} {position : Int} {ns : List Decimal}
    (h : ∀ n ∈ ns, n.isWhole = true) :
    wholeNumbers function position (ns.map .number) = .ok (ns.map Decimal.toInt) := by
  induction ns generalizing position with
  | nil => rfl
  | cons n ns ih =>
    obtain ⟨hn, hns⟩ := List.forall_mem_cons.mp h
    rw [List.map_cons, wholeNumbers, wholeNumber_eq_ok hn, ih hns]
    rfl

/-! ## The functions -/

theorem answers_subnet (written : String) {newBits number : Decimal}
    (hnewBits : newBits.isWhole = true) (hnumber : number.isWhole = true) :
    Answers "cidrsubnet" [.string written, .number newBits, .number number]
      ((subnet written newBits.toInt number.toInt).map .string) := by
  have hanswers : Answers "cidrsubnet" [.string written, .number newBits, .number number] _ :=
    .of_find? rfl rfl rfl
  simp only [wholeNumber_eq_ok hnewBits, wholeNumber_eq_ok hnumber] at hanswers
  exact hanswers

theorem answers_host (written : String) {number : Decimal} (hnumber : number.isWhole = true) :
    Answers "cidrhost" [.string written, .number number]
      ((host written number.toInt).map .string) := by
  have hanswers : Answers "cidrhost" [.string written, .number number] _ :=
    .of_find? rfl rfl rfl
  simp only [wholeNumber_eq_ok hnumber] at hanswers
  exact hanswers

/-- The signature of the function that allocates blocks. -/
def subnetsSignature : Signature :=
  ⟨"cidrsubnets", [.of "prefix" [.string]], some (.of "newbits" [.number]), 1, .shallow⟩

theorem answers_subnets (written : String) {newBits : List Decimal} (hne : newBits ≠ [])
    (hnewBits : ∀ n ∈ newBits, n.isWhole = true) :
    Answers "cidrsubnets" (.string written :: newBits.map .number)
      ((subnets written (newBits.map Decimal.toInt)).map fun texts =>
        .list (texts.map .string)) := by
  have hchecked : subnetsSignature.problem? (.string written :: newBits.map .number) = none := by
    have hcount : subnetsSignature.acceptsCount
        (Value.string written :: newBits.map .number).length = true := by
      have hrequired : subnetsSignature.requiredCount = 2 := rfl
      have hvariadic : subnetsSignature.variadic.isSome = true := rfl
      have hlength := List.length_pos_iff.mpr hne
      rw [Signature.acceptsCount, hrequired, hvariadic, Bool.true_or, Bool.and_true,
        List.length_cons, List.length_map, decide_eq_true_eq]
      omega
    rw [Signature.problem?, if_pos hcount]
    show subnetsSignature.argumentsProblem? 1 (newBits.map .number) = none
    refine Signature.argumentsProblem?_variadic le_rfl rfl fun arg harg place => ?_
    obtain ⟨n, -, rfl⟩ := List.mem_map.mp harg
    rfl
  have hknown : subnetsSignature.isUnknownCall (.string written :: newBits.map .number) =
      false := by
    simp [Signature.isUnknownCall, subnetsSignature, Value.isUnknown]
  have hanswers : Answers "cidrsubnets" (.string written :: newBits.map .number) _ :=
    .of_find? rfl hchecked hknown
  simp only [wholeNumbers_eq_ok hnewBits] at hanswers
  exact hanswers

end Library

end Groundplan
