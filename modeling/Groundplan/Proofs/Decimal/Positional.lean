import Groundplan.Decimal.Literal
import Groundplan.Proofs.Decimal.Value
import Groundplan.Proofs.Text.Characters

/-!
# Positional Texts

A number that is written without an exponent consists of digits, perhaps with a point among them.
Such a text is a strict literal, and reading it gives the number back, with the exponent that the
digits behind the point ask for.

## Main Definitions

- `Numeral.Positional`: the digits before and behind a point
- `Decimal.spelledOut`: the number with all zeros in front of the point as digits

## Main Statements

- `Numeral.Positional.read?_signed`, `Numeral.Positional.isLiteral_signed`: such a text is read
- `Decimal.exists_positional`: the positional text of a number
- `Decimal.ofText_toFixed`: it is read as the same number
-/

namespace Groundplan

namespace Numeral

/-! ## Runs of digits -/

theorem isDigit_point : Text.isDigit '.' = false :=
  Text.isDigit_of_ascii (by decide)

/-- The longest run of digits ends where something else follows. -/
theorem takeDigits_append {digits rest : List Char} (hdigits : ∀ c ∈ digits, c.isDigit = true)
    (hrest : ∀ c ∈ rest.head?, Text.isDigit c = false) :
    takeDigits (digits ++ rest) = (digits, rest) := by
  have hrun : ∀ c ∈ digits, Text.isDigit c = true :=
    fun c hc => Text.isDigit_of_isDigit (hdigits c hc)
  rw [takeDigits, Text.span_append_of_stop hrun hrest]

theorem takeDigits_of_forall {digits : List Char} (hdigits : ∀ c ∈ digits, c.isDigit = true) :
    takeDigits digits = (digits, []) := by
  have hnone : ∀ c ∈ ([] : List Char).head?, Text.isDigit c = false := fun c hc => by cases hc
  have h := takeDigits_append hdigits hnone
  rwa [List.append_nil] at h

/-- Digits before a point and behind it. -/
structure Positional where
  whole : List Char
  fraction : List Char
  whole_ne_nil : whole ≠ []
  isDigit_whole : ∀ c ∈ whole, c.isDigit = true
  isDigit_fraction : ∀ c ∈ fraction, c.isDigit = true

namespace Positional

/-- The digits, with a point if some of them are behind it. -/
def chars (p : Positional) : List Char :=
  if p.fraction = [] then p.whole else p.whole ++ '.' :: p.fraction

/-- The number that is written. -/
def number (negative : Bool) (p : Positional) : Decimal :=
  ⟨negative, Nat.ofDigitChars 10 (p.whole ++ p.fraction) 0, -(p.fraction.length : Int)⟩

variable {p : Positional} {negative : Bool}

theorem isDigit_append (p : Positional) : ∀ c ∈ p.whole ++ p.fraction, c.isDigit = true := by
  intro c hc
  rcases List.mem_append.mp hc with hwhole | hfraction
  · exact p.isDigit_whole c hwhole
  · exact p.isDigit_fraction c hfraction

/-- The text begins with a digit. -/
theorem exists_chars_eq_cons (p : Positional) :
    ∃ c cs, p.chars = c :: cs ∧ c.isDigit = true := by
  obtain ⟨c, cs, hwhole⟩ := List.exists_cons_of_ne_nil p.whole_ne_nil
  have hc := p.isDigit_whole c (by rw [hwhole]; exact List.mem_cons_self)
  unfold chars
  rw [hwhole]
  split
  · exact ⟨c, cs, rfl, hc⟩
  · exact ⟨c, cs ++ '.' :: p.fraction, rfl, hc⟩

theorem mem_chars {c : Char} (h : c ∈ p.chars) : c.isDigit = true ∨ c = '.' := by
  unfold chars at h
  split at h
  · exact .inl (p.isDigit_whole c h)
  · rcases List.mem_append.mp h with hwhole | hrest
    · exact .inl (p.isDigit_whole c hwhole)
    · rcases List.mem_cons.mp hrest with rfl | hfraction
      · exact .inr rfl
      · exact .inl (p.isDigit_fraction c hfraction)

/-- The characters before the point are read as one run, and those behind it as another. -/
theorem takeDigits_chars (p : Positional) :
    takeDigits p.chars = (p.whole, if p.fraction = [] then [] else '.' :: p.fraction) := by
  unfold chars
  split
  · exact takeDigits_of_forall p.isDigit_whole
  · refine takeDigits_append p.isDigit_whole fun c hc => ?_
    cases hc
    exact isDigit_point

theorem readUnsigned?_chars (p : Positional) (negative : Bool) :
    readUnsigned? negative p.chars = some (p.number negative) := by
  have hwhole : p.whole.isEmpty = false := List.isEmpty_eq_false_iff.mpr p.whole_ne_nil
  unfold readUnsigned?
  rw [p.takeDigits_chars]
  -- Without a fraction there is no point, and nothing is left behind the first run.
  by_cases hnil : p.fraction = []
  · simp [hnil, hwhole, number, readPower?, Text.natOfDigits_eq p.isDigit_whole]
  · simp [hnil, hwhole, number, readPower?, takeDigits_of_forall p.isDigit_fraction,
      Text.natOfDigits_eq p.isDigit_append]

/-! ## Signs -/

/-- The text with its sign. -/
def signed (negative : Bool) (p : Positional) : List Char :=
  (p.number negative).signed p.chars

theorem mem_signed {c : Char} (h : c ∈ p.signed negative) :
    c.isDigit = true ∨ c = '.' ∨ c = '-' := by
  have hchars : c ∈ p.chars ∨ c = '-' := by
    unfold signed Decimal.signed at h
    split at h
    · rcases List.mem_cons.mp h with rfl | hmem
      · exact .inr rfl
      · exact .inl hmem
    · exact .inl h
  rcases hchars with hmem | rfl
  · rcases mem_chars hmem with hdigit | hpoint
    · exact .inl hdigit
    · exact .inr (.inl hpoint)
  · exact .inr (.inr rfl)

/-- What holds of digits, points and minus signs holds of all characters of the text. -/
theorem forall_mem_signed {q : Char → Bool} (h : ('-' :: '.' :: Text.asciiDigits).all q = true) :
    ∀ c ∈ p.signed negative, q c = true := by
  simp only [List.all_cons, Bool.and_eq_true] at h
  intro c hc
  rcases mem_signed hc with hdigit | rfl | rfl
  · exact Text.forall_isDigit h.2.2 hdigit
  · exact h.2.1
  · exact h.1

/-- Without digits behind a point there is no point. -/
theorem not_mem_signed (h : p.fraction = []) : '.' ∉ p.signed negative := by
  have hchars : p.chars = p.whole := if_pos h
  have hwhole : '.' ∉ p.whole := fun hmem => absurd (p.isDigit_whole _ hmem) (by decide)
  cases negative with
  | true =>
    intro hmem
    rcases List.mem_cons.mp hmem with hsign | hmem
    · exact absurd hsign (by decide)
    · exact hwhole (hchars ▸ hmem)
  | false => exact fun hmem => hwhole (hchars ▸ hmem)

/-- The text ends in the digits behind its point. -/
theorem getLast?_signed (h : p.fraction ≠ []) :
    (p.signed negative).getLast? = p.fraction.getLast? := by
  have hchars : p.chars = p.whole ++ '.' :: p.fraction := if_neg h
  have hfront : ∃ front, p.signed negative = front ++ p.fraction := by
    cases negative with
    | true => exact ⟨'-' :: (p.whole ++ ['.']), by simp [signed, Decimal.signed, number, hchars]⟩
    | false => exact ⟨p.whole ++ ['.'], by simp [signed, Decimal.signed, number, hchars]⟩
  obtain ⟨front, hfront⟩ := hfront
  rw [hfront]
  exact List.getLast?_append_of_ne_nil _ h

/-- A sign is only taken for a sign. -/
theorem takeSign_signed (p : Positional) (negative : Bool) :
    takeSign (p.signed negative) = (negative, p.chars) := by
  cases negative with
  | true => rfl
  | false =>
    obtain ⟨c, cs, hchars, hc⟩ := p.exists_chars_eq_cons
    have hsign : ¬ c = '-' ∧ ¬ c = '+' := by
      simpa using Text.forall_isDigit (p := fun c => !(c == '-') && !(c == '+')) (by decide) hc
    have hsigned : p.signed false = c :: cs := hchars
    rw [hsigned, hchars]
    unfold takeSign
    split
    · next heq => exact absurd (List.cons.inj heq).1 hsign.1
    · next heq => exact absurd (List.cons.inj heq).1 hsign.2
    · rfl

/-- What begins with a digit is no word that begins otherwise. -/
theorem lowerAscii_ne {c : Char} {cs : List Char} {word : String} (hc : c.isDigit = true)
    (hword : ∀ first ∈ word.toList.head?, first.isDigit = false) :
    lowerAscii (c :: cs) ≠ word := by
  intro h
  have hlower : c.toLower.isDigit = true :=
    Text.forall_isDigit (p := fun c => c.toLower.isDigit) (by decide) hc
  rw [← h, lowerAscii, String.toList_ofList, List.map_cons] at hword
  rw [hword _ rfl] at hlower
  cases hlower

/-- Signed digits are read as a number. -/
theorem read?_signed (p : Positional) (negative : Bool) :
    read? (String.ofList (p.signed negative)) = some (.finite (p.number negative)) := by
  have hblank : ∀ c ∈ p.signed negative, Text.isBlank c = false := by
    simpa using forall_mem_signed (p := p) (q := fun c => !Text.isBlank c) (by decide)
  have hunderscore : ∀ c ∈ p.signed negative, (c != '_') = true :=
    forall_mem_signed (by decide)
  obtain ⟨c, cs, hchars, hc⟩ := p.exists_chars_eq_cons
  -- The words for what is not finite are tried first, and none of them begins with a digit.
  have hinf : lowerAscii p.chars ≠ "inf" := by
    rw [hchars]
    exact lowerAscii_ne hc (by simp)
  have hinfinity : lowerAscii p.chars ≠ "infinity" := by
    rw [hchars]
    exact lowerAscii_ne hc (by simp)
  have hundefined : isUndefined p.chars = false := by
    have hnan : lowerAscii (p.chars.take 3) ≠ "nan" := by
      rw [hchars]
      exact lowerAscii_ne hc (by simp)
    have hsnan : lowerAscii (p.chars.take 4) ≠ "snan" := by
      rw [hchars]
      exact lowerAscii_ne hc (by simp)
    simp [isUndefined, hnan, hsnan]
  unfold read?
  rw [String.toList_ofList, Text.stripChars_of_forall hblank, List.filter_eq_self.mpr hunderscore]
  simp [p.takeSign_signed negative, hinf, hinfinity, hundefined, p.readUnsigned?_chars]

theorem dropMinus_signed (p : Positional) (negative : Bool) :
    dropMinus (p.signed negative) = p.chars := by
  cases negative with
  | true => rfl
  | false =>
    obtain ⟨c, cs, hchars, hc⟩ := p.exists_chars_eq_cons
    have hsigned : p.signed false = c :: cs := hchars
    rw [hsigned, hchars]
    unfold dropMinus
    split
    · next heq =>
      rw [(List.cons.inj heq).1] at hc
      cases hc
    · rfl

theorem isLiteral_signed (p : Positional) (negative : Bool) :
    isLiteral (String.ofList (p.signed negative)) = true := by
  have hwhole : p.whole.isEmpty = false := List.isEmpty_eq_false_iff.mpr p.whole_ne_nil
  unfold isLiteral
  rw [String.toList_ofList, p.dropMinus_signed, p.takeDigits_chars]
  by_cases hnil : p.fraction = []
  · simp [hnil, hwhole, readPower?]
  · simp [hnil, hwhole, readPower?, takeDigits_of_forall p.isDigit_fraction]

end Positional

end Numeral

namespace Decimal

variable {d : Decimal}

/-! ## The text of a number -/

/-- The number with the zeros in front of its point as digits, so that its exponent only counts
digits behind the point. -/
def spelledOut (d : Decimal) : Decimal :=
  ⟨d.negative, scaleUp d.coefficient d.exponent.toNat, min 0 d.exponent⟩

theorem toRat_spelledOut (d : Decimal) : d.spelledOut.toRat = d.toRat := by
  have hmagnitude : d.spelledOut.magnitude = d.magnitude := by
    have h := scaleUp_mul d.coefficient (min_le_right 0 d.exponent)
    rwa [show (d.exponent - min 0 d.exponent).toNat = d.exponent.toNat by omega] at h
  cases hsign : d.negative with
  | true => rw [toRat_of_negative hsign, toRat_of_negative (d := d.spelledOut) hsign, hmagnitude]
  | false => rw [toRat_of_positive hsign, toRat_of_positive (d := d.spelledOut) hsign, hmagnitude]

theorem isDigit_digitsOf (n : Nat) : ∀ c ∈ digitsOf n, c.isDigit = true :=
  fun _ hc => Nat.isDigit_of_mem_toDigits (by decide) (by decide) hc

theorem isDigit_replicate_zero (k : Nat) : ∀ c ∈ List.replicate k '0', c.isDigit = true := by
  intro c hc
  rw [List.eq_of_mem_replicate hc]
  rfl

open Numeral (Positional)

/-- Digits with a point somewhere: zeros are put in front of the digits or behind them if the point
lies outside, and those behind are the ones that count. -/
theorem exists_placePoint {digits : List Char} (hdigits : ∀ c ∈ digits, c.isDigit = true)
    (hne : digits ≠ []) (place : Int) :
    ∃ p : Positional, placePoint digits place = p.chars ∧
      Nat.ofDigitChars 10 (p.whole ++ p.fraction) 0 =
        10 ^ (place - digits.length).toNat * Nat.ofDigitChars 10 digits 0 ∧
      p.fraction.length = (digits.length - place).toNat ∧
      (p.fraction ≠ [] → p.fraction.getLast? = digits.getLast?) := by
  have hlength := List.length_pos_iff.mpr hne
  unfold placePoint
  split
  · next hplace =>
    -- Zeros stand between the point and the digits.
    have hfraction : List.replicate place.natAbs '0' ++ digits ≠ [] := by simp [hne]
    refine ⟨⟨['0'], List.replicate place.natAbs '0' ++ digits, by simp, by simp, ?_⟩,
      ?_, ?_, ?_, ?_⟩
    · intro c hc
      rcases List.mem_append.mp hc with hzero | hdigit
      · exact isDigit_replicate_zero _ c hzero
      · exact hdigits c hdigit
    · exact (if_neg hfraction).symm
    · have hexact : (place - digits.length).toNat = 0 := by omega
      have hzero : 10 * 0 + ('0'.toNat - '0'.toNat) = 0 := rfl
      rw [hexact, pow_zero, one_mul, List.singleton_append, Nat.ofDigitChars_cons, hzero,
        Nat.ofDigitChars_append, Nat.ofDigitChars_replicate_zero, Nat.mul_zero]
    · simp only [List.length_append, List.length_replicate]
      omega
    · intro _
      exact List.getLast?_append_of_ne_nil _ hne
  · next hplace =>
    split
    · next hlong =>
      -- Zeros stand behind the digits, and no point.
      refine ⟨⟨digits ++ List.replicate (place.toNat - digits.length) '0', [], by simp [hne], ?_,
        by simp⟩, ?_, ?_, ?_, ?_⟩
      · intro c hc
        rcases List.mem_append.mp hc with hdigit | hzero
        · exact hdigits c hdigit
        · exact isDigit_replicate_zero _ c hzero
      · exact (if_pos rfl).symm
      · have hzeros : place.toNat - digits.length = (place - digits.length).toNat := by omega
        rw [hzeros, List.append_nil, Nat.ofDigitChars_append, Nat.ofDigitChars_replicate_zero]
      · simp only [List.length_nil]
        omega
      · exact fun h => absurd rfl h
    · next hshort =>
      -- The point stands among the digits.
      have hfraction : digits.drop place.toNat ≠ [] := by
        rw [Ne, List.drop_eq_nil_iff]
        omega
      refine ⟨⟨digits.take place.toNat, digits.drop place.toNat, ?_,
        fun c hc => hdigits c (List.mem_of_mem_take hc),
        fun c hc => hdigits c (List.mem_of_mem_drop hc)⟩, ?_, ?_, ?_, ?_⟩
      · rw [Ne, List.take_eq_nil_iff]
        rintro (hzero | hnil)
        · omega
        · exact hne hnil
      · exact (if_neg hfraction).symm
      · have hexact : (place - digits.length).toNat = 0 := by omega
        rw [hexact, pow_zero, one_mul, List.take_append_drop]
      · simp only [List.length_drop]
        omega
      · intro _
        rw [List.getLast?_drop, if_neg (by omega)]

/-- A number is written positionally with all of its digits: the point stands where the exponent
asks for, and the last digit behind it is that of the coefficient. -/
theorem exists_positional (d : Decimal) :
    ∃ p : Positional, d.fixedDigits = p.chars ∧ p.number d.negative = d.spelledOut ∧
      (p.fraction ≠ [] → p.fraction.getLast? = (digitsOf d.coefficient).getLast?) := by
  unfold fixedDigits
  split
  · next h =>
    simp only [Bool.and_eq_true, decide_eq_true_eq, isZero_iff] at h
    refine ⟨⟨['0'], [], by simp, by simp, by simp⟩, rfl, ?_, fun hnil => absurd rfl hnil⟩
    have hmin : min 0 d.exponent = 0 := by omega
    simp [Positional.number, spelledOut, h.1, hmin, scaleUp, Nat.ofDigitChars_cons]
  · obtain ⟨p, hchars, hnumber, hlength, hlast⟩ :=
      exists_placePoint (isDigit_digitsOf d.coefficient) Nat.toDigits_ne_nil (d.exponent + d.width)
    refine ⟨p, hchars, ?_, hlast⟩
    have hwidth : (digitsOf d.coefficient).length = d.width := rfl
    have hfraction : -(p.fraction.length : Int) = min 0 d.exponent := by
      rw [hlength, hwidth]
      omega
    have hzeros : (d.exponent + d.width - (digitsOf d.coefficient).length).toNat
        = d.exponent.toNat := by
      rw [hwidth]
      omega
    rw [hzeros, digitsOf, Nat.ofDigitChars_ten_toDigits, mul_comm, ← scaleUp_eq] at hnumber
    rw [Positional.number, hnumber, hfraction]
    rfl

theorem toFixed_eq {p : Positional} (hchars : d.fixedDigits = p.chars) :
    d.toFixed = String.ofList (p.signed d.negative) := by
  rw [toFixed, hchars]
  rfl

theorem isLiteral_toFixed (d : Decimal) : Numeral.isLiteral d.toFixed = true := by
  obtain ⟨p, hchars, _, _⟩ := exists_positional d
  rw [toFixed_eq hchars]
  exact p.isLiteral_signed d.negative

/-- The positional text of a number is read as the same number. -/
theorem ofText_toFixed (h : d.spelledOut.isRepresentable = true) :
    ofText d.toFixed = .ok d.spelledOut := by
  obtain ⟨p, hchars, hnumber, _⟩ := exists_positional d
  unfold ofText
  rw [toFixed_eq hchars, p.read?_signed, hnumber]
  exact if_pos h

/-! ## Trailing zeros -/

/-- The last digit of a natural number. -/
theorem getLast?_digitsOf (n : Nat) : (digitsOf n).getLast? = some (Nat.digitChar (n % 10)) := by
  rw [digitsOf, Nat.toDigits_eq_if (by decide)]
  split
  · next h => rw [Nat.mod_eq_of_lt h, List.getLast?_singleton]
  · rw [List.getLast?_append_of_ne_nil _ (by simp), List.getLast?_singleton]

/-- The text ends in a digit other than zero if it has a point. -/
def EndsInDigit (text : String) : Prop :=
  '.' ∈ text.toList → ∃ c, text.toList.getLast? = some c ∧ c.isDigit = true ∧ c ≠ '0'

/-- Without a zero as last digit behind the point nothing is trimmed. -/
theorem trimFraction_of_endsInDigit {text : String} (h : EndsInDigit text) :
    trimFraction text = text := by
  unfold trimFraction
  dsimp only
  split
  · next hpoint =>
    obtain ⟨c, hlast, hdigit, hzero⟩ := h (by simpa using hpoint)
    obtain ⟨front, hfront⟩ := List.getLast?_eq_some_iff.mp hlast
    have hnotPoint : ¬ (c == '.') = true := by
      simpa using Text.forall_isDigit (p := fun c => !(c == '.')) (by decide) hdigit
    have hnotZero : ¬ (c == '0') = true := fun heq => hzero (beq_iff_eq.mp heq)
    rw [hfront, List.reverse_append, List.reverse_singleton, List.singleton_append,
      List.dropWhile_cons_of_neg (p := (· == '0')) hnotZero,
      List.dropWhile_cons_of_neg (p := (· == '.')) hnotPoint,
      List.reverse_cons, List.reverse_reverse, ← hfront, String.ofList_toList]
  · rfl

/-- A number whose coefficient does not end in a zero, unless it is whole, has no zero at the end of
its fractional part. -/
theorem endsInDigit_toFixed (h : d.coefficient % 10 = 0 → 0 ≤ d.exponent) :
    EndsInDigit d.toFixed := by
  obtain ⟨p, hchars, hnumber, hlast⟩ := exists_positional d
  rw [toFixed_eq hchars, EndsInDigit, String.toList_ofList]
  intro hpoint
  -- A point is only written for digits behind it, so the exponent is negative.
  have hfraction : p.fraction ≠ [] := fun hnil => Positional.not_mem_signed hnil hpoint
  have hexponent : d.exponent < 0 := by
    have hlength := congrArg exponent hnumber
    have hpos := List.length_pos_iff.mpr hfraction
    simp only [Positional.number, spelledOut] at hlength
    omega
  refine ⟨Nat.digitChar (d.coefficient % 10), ?_, ?_, ?_⟩
  · rw [Positional.getLast?_signed hfraction, hlast hfraction, getLast?_digitsOf]
  · rw [Nat.isDigit_digitChar, decide_eq_true_eq]
    omega
  · rw [Ne, Nat.digitChar_eq_zero]
    exact fun hzero => absurd (h hzero) (not_le.mpr hexponent)

end Decimal

end Groundplan
