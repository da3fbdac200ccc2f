import Groundplan.Text.Blank
import Groundplan.Text.Letter
import Groundplan.Text.Numeral
import Mathlib.Data.List.Basic
import Mathlib.Data.List.TakeDrop

/-!
# Classes of Characters

The classes by which texts are taken apart: blanks, the characters of words, and digits.  Tables are
walked through once for each class, and what is known of every digit is checked on the ten of them.

## Main Statements

- `Text.takeWhile_append_of_stop`, `Text.dropWhile_append_of_stop`, `Text.span_append_of_stop`: runs
  of a class of characters
- `Text.isBlank_of_isWordChar`: no character of a word is blank
- `Text.forall_isDigit`: what holds of the ten digits
- `Text.natOfDigits_eq`: the number that digits write
-/

namespace Groundplan.Text

/-! ## Runs -/

section Run

variable {α : Type} {p : α → Bool} {run rest : List α}

/-- A run ends where something else follows. -/
theorem takeWhile_append_of_stop (hrun : ∀ a ∈ run, p a = true)
    (hstop : ∀ a ∈ rest.head?, p a = false) : (run ++ rest).takeWhile p = run := by
  rw [List.takeWhile_append_of_pos hrun]
  cases rest with
  | nil => rw [List.takeWhile_nil, List.append_nil]
  | cons a rest => rw [List.takeWhile_cons_of_neg (by simp [hstop a rfl]), List.append_nil]

theorem dropWhile_append_of_stop (hrun : ∀ a ∈ run, p a = true)
    (hstop : ∀ a ∈ rest.head?, p a = false) : (run ++ rest).dropWhile p = rest := by
  rw [List.dropWhile_append_of_pos hrun]
  cases rest with
  | nil => rfl
  | cons a rest => rw [List.dropWhile_cons_of_neg (by simp [hstop a rfl])]

theorem span_append_of_stop (hrun : ∀ a ∈ run, p a = true)
    (hstop : ∀ a ∈ rest.head?, p a = false) : (run ++ rest).span p = (run, rest) := by
  rw [List.span_eq_takeWhile_dropWhile, takeWhile_append_of_stop hrun hstop,
    dropWhile_append_of_stop hrun hstop]

end Run

/-! ## Blanks and words -/

/-- The kernel walks through the table as a list. -/
theorem isWordChar_eq :
    isWordChar = fun c =>
      (alphanumericRanges.toList.any fun range => range.1 ≤ c.toNat && c.toNat ≤ range.2)
        || c == '_' := by
  funext c
  rw [isWordChar, isAlphanumeric, inRanges, Array.any_toList]

/-- First and last code points of the runs of blank characters. -/
def blankRuns : List (Nat × Nat) :=
  [(9, 13), (28, 32), (0x85, 0x85), (0xA0, 0xA0), (0x1680, 0x1680), (0x2000, 0x200A),
    (0x2028, 0x2029), (0x202F, 0x202F), (0x205F, 0x205F), (0x3000, 0x3000)]

theorem exists_blankRun {c : Char} (h : isBlank c = true) :
    ∃ run ∈ blankRuns, run.1 ≤ c.toNat ∧ c.toNat ≤ run.2 := by
  simp only [isBlank, Bool.or_eq_true, Bool.and_eq_true, decide_eq_true_eq, beq_iff_eq] at h
  simp only [blankRuns, List.exists_mem_cons_iff]
  omega

/-- No character of a word is blank. -/
theorem isBlank_of_isWordChar {c : Char} (h : isWordChar c = true) : isBlank c = false := by
  -- Most ranges lie behind the last blank, so the runs are gone through for few of them.
  have hapart : (alphanumericRanges.toList.all fun range => 0x3000 < range.1
      || blankRuns.all fun run => run.2 < range.1 || range.2 < run.1) = true := by
    decide +kernel
  rw [isWordChar_eq, Bool.or_eq_true] at h
  rcases h with hletter | hunderscore
  · by_contra hblank
    obtain ⟨run, hrun, hfirst, hlast⟩ := exists_blankRun (by simpa using hblank)
    obtain ⟨range, hrange, hin⟩ := List.any_eq_true.mp hletter
    have hlimit : ∀ run ∈ blankRuns, run.2 ≤ 0x3000 := by decide
    have hlastLimit := hlimit run hrun
    have hrangeApart := List.all_eq_true.mp hapart range hrange
    simp only [Bool.and_eq_true, decide_eq_true_eq] at hin
    simp only [Bool.or_eq_true, List.all_eq_true, decide_eq_true_eq] at hrangeApart
    rcases hrangeApart with hbehind | hruns
    · omega
    · have hrunApart := hruns run hrun
      omega
  · rw [beq_iff_eq.mp hunderscore]
    decide

/-- Without blanks in it, nothing is stripped from a text. -/
theorem stripChars_of_forall {cs : List Char} (h : ∀ c ∈ cs, isBlank c = false) :
    stripChars cs = cs := by
  have hdrop : ∀ xs : List Char, (∀ c ∈ xs, isBlank c = false) → xs.dropWhile isBlank = xs := by
    intro xs hxs
    cases xs with
    | nil => rfl
    | cons c xs => exact List.dropWhile_cons_of_neg (by simp [hxs c List.mem_cons_self])
  rw [stripChars, hdrop cs h, hdrop cs.reverse (by simpa using h), List.reverse_reverse]

/-! ## Digits -/

/-- The digits of the numbers that are written. -/
def asciiDigits : List Char :=
  ['0', '1', '2', '3', '4', '5', '6', '7', '8', '9']

theorem mem_asciiDigits {c : Char} (h : c.isDigit = true) : c ∈ asciiDigits := by
  have hrange : 48 ≤ c.toNat ∧ c.toNat ≤ 57 := by
    simpa [Char.isDigit, UInt32.le_iff_toNat_le] using h
  have hcode : c = Char.ofNat c.toNat := (Char.ofNat_toNat c).symm
  have hall : ∀ n ∈ List.range' 48 10, Char.ofNat n ∈ asciiDigits := by decide
  rw [hcode]
  exact hall _ (by simp [List.mem_range'_1]; omega)

/-- What holds of the ten digits holds of every digit. -/
theorem forall_isDigit {p : Char → Bool} (h : asciiDigits.all p = true) {c : Char}
    (hc : c.isDigit = true) : p c = true :=
  List.all_eq_true.mp h c (mem_asciiDigits hc)

theorem digitValue?_of_isDigit {c : Char} (hc : c.isDigit = true) :
    digitValue? c = some (c.toNat - '0'.toNat) := by
  simpa using forall_isDigit (p := fun c => digitValue? c == some (c.toNat - '0'.toNat))
    (by decide +kernel) hc

theorem isDigit_of_isDigit {c : Char} (hc : c.isDigit = true) : isDigit c = true := by
  rw [isDigit, digitValue?_of_isDigit hc, Option.isSome_some]

/-- Among the first 128 characters only those from zero to nine are digits. -/
theorem isDigit_of_ascii {c : Char} (h : c.toNat < 128) : isDigit c = c.isDigit := by
  have hzeros : zeroDigits.toList = 48 :: zeroDigits.toList.tail := rfl
  have hothers : ∀ first ∈ zeroDigits.toList.tail, 128 ≤ first := by decide
  have hnone : (zeroDigits.toList.tail.find? fun first => first ≤ c.toNat && c.toNat ≤ first + 9)
      = none := by
    refine List.find?_eq_none.mpr fun first hfirst hfound => ?_
    have hle := hothers first hfirst
    simp only [Bool.and_eq_true, decide_eq_true_eq] at hfound
    omega
  have hdigit : c.isDigit = (decide (48 ≤ c.toNat) && decide (c.toNat ≤ 57)) := rfl
  rw [isDigit, digitValue?, ← Array.find?_toList, hzeros, List.find?_cons, hnone, hdigit]
  cases decide (48 ≤ c.toNat) && decide (c.toNat ≤ 57) <;> rfl

/-- No Latin letter is a digit of any script. -/
theorem isDigit_eq_false_of_isAlpha {c : Char} (h : c.isAlpha = true) : isDigit c = false := by
  have hrange : (65 ≤ c.toNat ∧ c.toNat ≤ 90) ∨ (97 ≤ c.toNat ∧ c.toNat ≤ 122) := by
    rcases Bool.or_eq_true_iff.mp h with hupper | hlower
    · exact .inl (of_decide_eq_true hupper)
    · exact .inr ((Bool.and_eq_true_iff.mp hlower).imp of_decide_eq_true of_decide_eq_true)
  have habove : ¬ c.toNat ≤ 57 := by omega
  rw [isDigit_of_ascii (by omega)]
  exact Bool.and_eq_false_imp.mpr fun _ => decide_eq_false habove

theorem natOfDigits_eq {cs : List Char} (h : ∀ c ∈ cs, c.isDigit = true) :
    natOfDigits cs = Nat.ofDigitChars 10 cs 0 := by
  rw [natOfDigits, Nat.ofDigitChars_eq_foldl]
  refine List.foldl_ext _ _ _ fun n c hc => ?_
  rw [digitValue?_of_isDigit (h c hc), Option.getD_some]

end Groundplan.Text
