import Groundplan.Conversion
import Groundplan.Proofs.Decimal.Canonical

/-!
# Numbers to Text and Back

The text of a number is read as the nearest number of the context of the language.  So the numbers
that the context can represent are the ones that are read back unchanged, and among them the text
tells apart what is not equal.

## Main Definitions

- `Value.IsPlainNumber`: texts of numbers without an exponent and without zeros at the end

## Main Statements

- `Value.toStringValue_cases`: a number has a plain text or is too great
- `Value.roundTrip_iff`: numbers that survive
- `Value.toNumberValue_toStringValue`: to text and back
-/

namespace Groundplan

namespace Value

open Decimal (Context)

/-! ## To text and back -/

/-- The text of a number that has the strict form, no exponent, and no zero at the end of a
fractional part. -/
structure IsPlainNumber (text : String) : Prop where
  isLiteral : Numeral.isLiteral text = true
  noExponent : ∀ c ∈ text.toList, c ≠ 'e' ∧ c ≠ 'E'
  endsInDigit : Decimal.EndsInDigit text

theorem isPlainNumber_toFixed {r : Decimal} (h : r.coefficient % 10 = 0 → 0 ≤ r.exponent) :
    IsPlainNumber r.toFixed := by
  refine ⟨Decimal.isLiteral_toFixed r, ?_, Decimal.endsInDigit_toFixed h⟩
  obtain ⟨p, hchars, _⟩ := Decimal.exists_positional r
  rw [Decimal.toFixed_eq hchars, String.toList_ofList]
  simpa using Numeral.Positional.forall_mem_signed (p := p) (q := fun c => c != 'e' && c != 'E')
    (by decide)

/-- A number that is not too great after rounding has a plain text, which is read as the nearest
number. -/
theorem toStringValue_cases (n : Decimal) :
    (10 ^ (Context.standard.maxExponent + 1) ≤ Context.standard.rounded n.magnitude
        ∧ toStringValue (.number n) = .error (.defect (.signal .overflow)))
      ∨ (Context.standard.rounded n.magnitude < 10 ^ (Context.standard.maxExponent + 1)
        ∧ ∃ text m, toStringValue (.number n) = .ok (.string text) ∧ IsPlainNumber text
          ∧ toNumberValue (.string text) = .ok (.number m)
          ∧ m.toRat = Context.standard.nearest n) := by
  have hshown : toStringValue (.number n) = (ofArithmetic n.toText).map .string := rfl
  rw [hshown]
  rcases n.toText_cases with ⟨hlarge, htext⟩ | ⟨hfits, r, htext, hr⟩
  · rw [htext]
    exact .inl ⟨hlarge, rfl⟩
  · rw [htext]
    refine .inr ⟨hfits, r.toFixed, r.spelledOut, rfl, isPlainNumber_toFixed hr.stripped, ?_, ?_⟩
    · rw [toNumberValue, numberOfText, if_pos (Decimal.isLiteral_toFixed r),
        Decimal.ofText_toFixed hr.isRepresentable_spelledOut]
      rfl
    · rw [Decimal.toRat_spelledOut, hr.toRat_eq]

/-- What is shown of a number is read as the nearest number of the context. -/
theorem toNumberValue_of_toStringValue {n : Decimal} {v : Value}
    (h : toStringValue (.number n) = .ok v) :
    Context.standard.rounded n.magnitude < 10 ^ (Context.standard.maxExponent + 1)
      ∧ ∃ text m, v = .string text ∧ IsPlainNumber text ∧ toNumberValue v = .ok (.number m)
        ∧ m.toRat = Context.standard.nearest n := by
  rcases toStringValue_cases n with ⟨_, herror⟩ | ⟨hfits, text, m, hok, hplain, hnumber, hvalue⟩
  · rw [h] at herror
    cases herror
  · rw [h] at hok
    cases hok
    exact ⟨hfits, text, m, rfl, hplain, hnumber, hvalue⟩

theorem exists_toStringValue_iff (n : Decimal) :
    (∃ v, toStringValue (.number n) = .ok v) ↔
      Context.standard.rounded n.magnitude < 10 ^ (Context.standard.maxExponent + 1) := by
  constructor
  · rintro ⟨v, h⟩
    exact (toNumberValue_of_toStringValue h).1
  · intro hfits
    rcases toStringValue_cases n with ⟨hlarge, _⟩ | ⟨_, text, _, hok, _⟩
    · exact absurd hfits (not_lt.mpr hlarge)
    · exact ⟨_, hok⟩

/-- The numbers that are read back from their texts unchanged are those that the context can
represent. -/
theorem roundTrip_iff (n : Decimal) :
    (∃ v m, toStringValue (.number n) = .ok v ∧ toNumberValue v = .ok (.number m)
      ∧ m.equals n = true) ↔ Context.standard.Represents n := by
  rw [Decimal.represents_iff Context.standard_isSane]
  constructor
  · rintro ⟨v, m, hshown, hread, hequals⟩
    obtain ⟨hfits, _, m', _, _, hread', hvalue⟩ := toNumberValue_of_toStringValue hshown
    rw [hread] at hread'
    cases hread'
    -- What comes back is the nearest number, so it is the same only if rounding changes nothing.
    rw [Decimal.equals_iff, hvalue, Decimal.nearest_eq_toRat_iff] at hequals
    exact ⟨hequals, by rwa [hequals] at hfits⟩
  · rintro ⟨hrounded, hfits⟩
    obtain ⟨v, hshown⟩ := (exists_toStringValue_iff n).mpr (by rwa [hrounded])
    obtain ⟨_, _, m, _, _, hread, hvalue⟩ := toNumberValue_of_toStringValue hshown
    refine ⟨v, m, hshown, hread, ?_⟩
    rw [Decimal.equals_iff, hvalue, Decimal.nearest_eq_toRat_iff]
    exact hrounded

/-- The texts of numbers that the context can represent are the same if the numbers are equal. -/
theorem toStringValue_eq_iff {a b : Decimal} (ha : Context.standard.Represents a)
    (hb : Context.standard.Represents b) :
    toStringValue (.number a) = toStringValue (.number b) ↔ a.equals b = true := by
  obtain ⟨v, m, hshown, hread, hequals⟩ := (roundTrip_iff a).mpr ha
  obtain ⟨v', m', hshown', hread', hequals'⟩ := (roundTrip_iff b).mpr hb
  rw [Decimal.equals_iff] at hequals hequals' ⊢
  constructor
  · intro h
    -- Both are read back from the same text.
    rw [hshown, hshown'] at h
    cases h
    rw [hread] at hread'
    cases hread'
    rw [← hequals, hequals']
  · intro h
    have htext := Decimal.toText_congr h
    unfold toStringValue primitiveText
    simp only [htext]

/-- The text of a number is that of the nearest number of the context of the language.  Numbers have
a text unless they are too great after rounding; the text has no exponent and no zero at the end of
a fractional part, and it is read as the number rounded half to even.  So the numbers that survive
are those that the context can represent, and their texts are the same exactly if they are equal. -/
theorem toNumberValue_toStringValue :
    (∀ n, (∃ v, toStringValue (.number n) = .ok v) ↔
      Context.standard.rounded n.magnitude < 10 ^ (Context.standard.maxExponent + 1)) ∧
    (∀ n v, toStringValue (.number n) = .ok v → ∃ text m, v = .string text ∧ IsPlainNumber text ∧
      toNumberValue v = .ok (.number m) ∧ m.toRat = Context.standard.nearest n) ∧
    (∀ n, (∃ v m, toStringValue (.number n) = .ok v ∧ toNumberValue v = .ok (.number m) ∧
      m.equals n = true) ↔ Context.standard.Represents n) ∧
    ∀ a b, Context.standard.Represents a → Context.standard.Represents b →
      (toStringValue (.number a) = toStringValue (.number b) ↔ a.equals b = true) :=
  ⟨exists_toStringValue_iff, fun _ _ h => (toNumberValue_of_toStringValue h).2, roundTrip_iff,
    fun _ _ => toStringValue_eq_iff⟩

/-- Zeros behind the point are no part of the text, but of the digits. -/
theorem toNumberValue_toStringValue_trailing :
    toStringValue (.number ⟨true, 150, -2⟩) = .ok (.string "-1.5") ∧
      (∃ m, toNumberValue (.string "-1.5") = .ok (.number m)
        ∧ m.toRat = Context.standard.nearest ⟨true, 150, -2⟩) ∧
      toStringValue (.number ⟨true, 150, -2⟩) = toStringValue (.number ⟨true, 15, -1⟩) := by
  have hshown : toStringValue (.number ⟨true, 150, -2⟩) = .ok (.string "-1.5") := rfl
  have hrepresents : Context.standard.Represents ⟨true, 150, -2⟩ :=
    ⟨⟨true, 150, -2⟩, rfl, by decide, by decide, by decide⟩
  have hrepresents' : Context.standard.Represents ⟨true, 15, -1⟩ :=
    ⟨⟨true, 15, -1⟩, rfl, by decide, by decide, by decide⟩
  obtain ⟨_, m, _, _, hread, hvalue⟩ := toNumberValue_toStringValue.2.1 _ _ hshown
  refine ⟨hshown, ⟨m, hread, hvalue⟩, ?_⟩
  exact (toNumberValue_toStringValue.2.2.2 _ _ hrepresents hrepresents').mpr (by decide)

/-- A number that is too small for the context is shown as a zero with its sign. -/
example : toStringValue (.number ⟨true, 1, -2000000⟩) = .ok (.string "-0") := rfl

end Value

end Groundplan
