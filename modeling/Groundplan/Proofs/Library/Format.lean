import Groundplan.Proofs.Library.Call
import Groundplan.Proofs.Text.Characters

/-!
# Formats

A format that is written from pieces, each a text or a directive, is read back as these pieces: the
percent signs of a text are doubled, so none of them begins a directive, and no field of a directive
takes characters of the next one.

## Main Definitions

- `Library.Directive`: a directive that can be written
- `Library.Piece`: a text or a directive
- `Library.selections`: the pieces, each directive with the argument that it takes

## Main Statements

- `Library.scanDirective?_append`: a written directive is read back
- `Library.formatFrom_eq_ok_iff`: what the rest of a format becomes
- `Library.format_pieces`: calls of the function
-/

namespace Groundplan.Library

variable {rest digits : List Char} {c : Char}

/-! ## Characters -/

theorem isFlag_iff : isFlag c = true ↔ c ∈ ['-', '+', '#', ' ', '0'] := by
  simp [isFlag, or_assoc]

/-- What holds of the five flags holds of every flag. -/
theorem forall_isFlag {p : Char → Bool} (h : ['-', '+', '#', ' ', '0'].all p = true)
    (hc : isFlag c = true) : p c = true :=
  List.all_eq_true.mp h c (isFlag_iff.mp hc)

/-- The only flag that is a digit is zero. -/
theorem isFlag_eq_false_of_isDigit (h : Text.isDigit c = true) (hzero : c ≠ '0') :
    isFlag c = false := by
  by_contra hflag
  rw [Bool.not_eq_false] at hflag
  have hascii := forall_isFlag (p := fun c => c.toNat < 128) (by decide) hflag
  have hdigit := forall_isFlag (p := fun c => !c.isDigit || c == '0') (by decide) hflag
  rw [Text.isDigit_of_ascii (of_decide_eq_true hascii)] at h
  simp [h, hzero] at hdigit

theorem isFlag_eq_false_of_isAlpha (h : c.isAlpha = true) : isFlag c = false := by
  by_contra hflag
  rw [Bool.not_eq_false] at hflag
  have halpha := forall_isFlag (p := fun c => !c.isAlpha) (by decide) hflag
  simp [h] at halpha

theorem ne_bracket_of_isFlag (h : isFlag c = true) : c ≠ '[' := by
  rintro rfl
  exact absurd h (by decide)

theorem ne_bracket_of_isDigit (h : Text.isDigit c = true) : c ≠ '[' := by
  rintro rfl
  rw [Text.isDigit_of_ascii (by decide)] at h
  cases h

theorem ne_bracket_of_isAlpha (h : c.isAlpha = true) : c ≠ '[' := by
  rintro rfl
  exact absurd h (by decide)

/-- The first of some characters is that of the second part if the first part is empty. -/
theorem forall_head?_append {P : Char → Prop} {cs : List Char} (hcs : ∀ c ∈ cs.head?, P c)
    (hrest : ∀ c ∈ rest.head?, P c) : ∀ c ∈ (cs ++ rest).head?, P c := by
  cases cs with
  | nil => exact hrest
  | cons => exact hcs

/-! ## Fields -/

/-- Whether a text consists of one digit or more. -/
def isNumber (digits : List Char) : Bool :=
  !digits.isEmpty && digits.all Text.isDigit

theorem isDigit_of_isNumber (h : isNumber digits = true) : ∀ c ∈ digits, Text.isDigit c = true :=
  List.all_eq_true.mp (Bool.and_eq_true_iff.mp h).2

theorem takeNumber?_append (hdigits : isNumber digits = true)
    (hrest : ∀ c ∈ rest.head?, Text.isDigit c = false) :
    takeNumber? (digits ++ rest) = some (digits, rest) := by
  rw [takeNumber?, Text.span_append_of_stop (isDigit_of_isNumber hdigits) hrest]
  cases digits with
  | nil => cases hdigits
  | cons => rfl

theorem takeNumber?_eq_none (hrest : ∀ c ∈ rest.head?, Text.isDigit c = false) :
    takeNumber? rest = none := by
  have hspan : ([] ++ rest).span Text.isDigit = ([], rest) :=
    Text.span_append_of_stop (List.forall_mem_nil _) hrest
  rw [List.nil_append] at hspan
  rw [takeNumber?, hspan]

/-- An argument number between brackets. -/
def explicitChars (explicit : Option (List Char)) : List Char :=
  explicit.elim [] fun digits => '[' :: (digits ++ [']'])

/-- A precision behind a point. -/
def precisionChars (precision : Option (List Char)) : List Char :=
  precision.elim [] ('.' :: ·)

theorem takeExplicit_append {explicit : Option (List Char)}
    (hnumber : ∀ digits ∈ explicit, isNumber digits = true) (hrest : ∀ c ∈ rest.head?, c ≠ '[') :
    takeExplicit (explicitChars explicit ++ rest) = (explicit, rest) := by
  cases explicit with
  | none =>
    show takeExplicit rest = (none, rest)
    unfold takeExplicit
    split
    · exact absurd rfl (hrest '[' rfl)
    · rfl
  | some digits =>
    have hbracket : ∀ c ∈ (']' :: rest).head?, Text.isDigit c = false := by
      rintro c ⟨⟩
      exact Text.isDigit_of_ascii (by decide)
    have hfound := takeNumber?_append (hnumber digits rfl) hbracket
    simp only [explicitChars, Option.elim_some, List.cons_append, List.append_assoc,
      List.nil_append, takeExplicit, hfound]

theorem takePrecision_append {precision : Option (List Char)}
    (hnumber : ∀ digits ∈ precision, isNumber digits = true)
    (hrest : ∀ c ∈ rest.head?, c.isAlpha = true) :
    takePrecision (precisionChars precision ++ rest) = (precision, rest) := by
  cases precision with
  | none =>
    show takePrecision rest = (none, rest)
    unfold takePrecision
    split
    · exact absurd (hrest '.' rfl) (by decide)
    · rfl
  | some digits =>
    have hfound := takeNumber?_append (hnumber digits rfl)
      fun c hc => Text.isDigit_eq_false_of_isAlpha (hrest c hc)
    simp only [precisionChars, Option.elim_some, List.cons_append, takePrecision, hfound]

/-! ## Directives -/

/-- A directive that can be written: its numbers have digits, its width does not begin with a zero,
which would be a flag, and its verb is a letter. -/
structure Directive extends Verb where
  isNumber_explicit : ∀ digits ∈ explicit, isNumber digits = true
  isFlag_flags : flags.all isFlag = true
  isNumber_width : ∀ digits ∈ width, isNumber digits = true
  head_width_ne : ∀ digits ∈ width, digits.head? ≠ some '0'
  isNumber_precision : ∀ digits ∈ precision, isNumber digits = true
  isAlpha_verb : verb.isAlpha = true

namespace Directive

variable (d : Directive)

/-- A directive as it is written behind its percent sign. -/
def chars : List Char :=
  explicitChars d.explicit ++ (d.flags ++ (d.width.getD [] ++ (precisionChars d.precision
    ++ [d.verb])))

theorem verb_ne_percent : d.verb ≠ '%' := by
  intro h
  have halpha := d.isAlpha_verb
  rw [h] at halpha
  exact absurd halpha (by decide)

theorem isAlpha_head (rest : List Char) : ∀ c ∈ (d.verb :: rest).head?, c.isAlpha = true := by
  rintro c ⟨⟩
  exact d.isAlpha_verb

/-- Where a width could stand but none does, neither a digit nor a flag follows. -/
theorem precision_head (rest : List Char) :
    ∀ c ∈ (precisionChars d.precision ++ d.verb :: rest).head?,
      Text.isDigit c = false ∧ isFlag c = false ∧ c ≠ '[' := by
  refine forall_head?_append (P := fun c => Text.isDigit c = false ∧ isFlag c = false ∧ c ≠ '[')
    (fun c hc => ?_) fun c hc => ?_
  · cases hprecision : d.precision with
    | none =>
      rw [hprecision] at hc
      cases hc
    | some digits =>
      rw [hprecision] at hc
      cases hc
      exact ⟨Text.isDigit_of_ascii (by decide), by decide, by decide⟩
  · have halpha := d.isAlpha_head rest c hc
    exact ⟨Text.isDigit_eq_false_of_isAlpha halpha, isFlag_eq_false_of_isAlpha halpha,
      ne_bracket_of_isAlpha halpha⟩

/-- The flags end where the width begins. -/
theorem width_head (rest : List Char) :
    ∀ c ∈ (d.width.getD [] ++ (precisionChars d.precision ++ d.verb :: rest)).head?,
      isFlag c = false ∧ c ≠ '[' := by
  refine forall_head?_append (P := fun c => isFlag c = false ∧ c ≠ '[') (fun c hc => ?_)
    fun c hc => (d.precision_head rest c hc).2
  cases hwidth : d.width with
  | none =>
    rw [hwidth] at hc
    cases hc
  | some digits =>
    rw [hwidth] at hc
    have hdigit := isDigit_of_isNumber (d.isNumber_width digits hwidth) c (List.mem_of_head? hc)
    have hzero : c ≠ '0' := by
      rintro rfl
      exact d.head_width_ne digits hwidth hc
    exact ⟨isFlag_eq_false_of_isDigit hdigit hzero, ne_bracket_of_isDigit hdigit⟩

theorem flags_head (rest : List Char) : ∀ c ∈ (d.flags ++ (d.width.getD []
    ++ (precisionChars d.precision ++ d.verb :: rest))).head?, c ≠ '[' :=
  forall_head?_append (P := (· ≠ '['))
    (fun c hc =>
      ne_bracket_of_isFlag (List.all_eq_true.mp d.isFlag_flags c (List.mem_of_head? hc)))
    fun c hc => (d.width_head rest c hc).2

theorem takeNumber?_width (hrest : ∀ c ∈ rest.head?, Text.isDigit c = false) :
    takeNumber? (d.width.getD [] ++ rest) = d.width.map (·, rest) := by
  cases hwidth : d.width with
  | none => exact takeNumber?_eq_none hrest
  | some digits => exact takeNumber?_append (d.isNumber_width digits hwidth) hrest

end Directive

/-- A written directive is read back, whatever follows. -/
theorem scanDirective?_append (d : Directive) (rest : List Char) :
    scanDirective? (d.chars ++ rest) = some (d.toVerb, rest) := by
  have hchars : d.chars ++ rest = explicitChars d.explicit ++ (d.flags ++ (d.width.getD []
      ++ (precisionChars d.precision ++ d.verb :: rest))) := by
    simp only [Directive.chars, List.append_assoc, List.cons_append, List.nil_append]
  -- Each field ends at the first character of whatever stands behind it.
  have hexplicit := takeExplicit_append d.isNumber_explicit (d.flags_head rest)
  have hflags := Text.span_append_of_stop (List.all_eq_true.mp d.isFlag_flags)
    fun c hc => (d.width_head rest c hc).1
  have hwidth := d.takeNumber?_width fun c hc => (d.precision_head rest c hc).1
  have hprecision := takePrecision_append d.isNumber_precision (d.isAlpha_head rest)
  rw [hchars]
  simp only [scanDirective?, hexplicit, hflags, hwidth]
  cases hnumber : d.width with
  | none =>
    simp only [Option.getD_none, List.nil_append, Option.map_none, hprecision, d.isAlpha_verb,
      Bool.true_or, if_true]
    rw [← hnumber]
  | some digits =>
    simp only [Option.map_some, hprecision, d.isAlpha_verb, Bool.true_or, if_true]
    rw [← hnumber]

/-! ## Pieces -/

/-- What a format is written from. -/
inductive Piece where
  | text (chars : List Char)
  | directive (d : Directive)

/-- A character of a text; percent signs are doubled. -/
def doubled (c : Char) : List Char :=
  if c = '%' then ['%', '%'] else [c]

/-- A piece as it is written in a format. -/
def Piece.chars : Piece → List Char
  | .text chars => chars.flatMap doubled
  | .directive d => '%' :: d.chars

/-- The pieces one after the other. -/
def written (pieces : List Piece) : List Char :=
  pieces.flatMap Piece.chars

/-- The index of the argument that a directive takes: the one it names, counted from one, or else
the next one. -/
def Verb.index? (d : Verb) (next : Nat) : Option Nat :=
  match d.explicit with
  | none => some next
  | some digits =>
    match Text.natOfDigits digits with
    | 0 => none
    | n + 1 => some n

/-- The argument that a directive takes, with its index. -/
def Verb.selected? (args : List Value) (next : Nat) (d : Verb) : Option (Nat × Value) :=
  (d.index? next).bind fun index => args[index]?.map (index, ·)

/-- Each piece with the argument that it takes, if it takes one.  The next argument is the one
behind the last that was taken. -/
def selections (args : List Value) : Nat → List Piece → List (Piece × Option Value)
  | _, [] => []
  | next, .text chars :: pieces => (.text chars, none) :: selections args next pieces
  | next, .directive d :: pieces =>
    match d.selected? args next with
    | none => (.directive d, none) :: selections args next pieces
    | some (index, arg) => (.directive d, some arg) :: selections args (index + 1) pieces

/-- What a piece becomes: a text stands for itself, a directive for its argument. -/
inductive Gives : Piece × Option Value → List Char → Prop where
  | text (chars : List Char) (arg : Option Value) : Gives (.text chars, arg) chars
  | directive {d : Directive} {arg : Value} {part : String}
      (h : formatArgument d.toVerb arg = .ok part) : Gives (.directive d, some arg) part.toList

/-- A piece becomes nothing: there is no argument for a directive, or it does not suit. -/
inductive Fails : Piece × Option Value → Prop where
  | unselected (d : Directive) : Fails (.directive d, none)
  | unsuited {d : Directive} {arg : Value} {fault : Fault}
      (h : formatArgument d.toVerb arg = .error fault) : Fails (.directive d, some arg)

/-- What the pieces become, one after the other. -/
def Becomes (selected : List (Piece × Option Value)) (text : List Char) : Prop :=
  ∃ parts, List.Forall₂ Gives selected parts ∧ parts.flatten = text

theorem becomes_nil_iff {text : List Char} : Becomes [] text ↔ text = [] := by
  constructor
  · rintro ⟨_, ⟨⟩, rfl⟩
    rfl
  · rintro rfl
    exact ⟨[], .nil, rfl⟩

theorem becomes_cons_iff {selection : Piece × Option Value}
    {selected : List (Piece × Option Value)} {text : List Char} :
    Becomes (selection :: selected) text ↔
      ∃ part tail, Gives selection part ∧ Becomes selected tail ∧ part ++ tail = text := by
  constructor
  · rintro ⟨_, hparts, rfl⟩
    obtain ⟨part, parts, hpart, hothers, rfl⟩ := List.forall₂_cons_left_iff.mp hparts
    exact ⟨part, parts.flatten, hpart, ⟨parts, hothers, rfl⟩, rfl⟩
  · rintro ⟨part, _, hpart, ⟨parts, hparts, rfl⟩, rfl⟩
    exact ⟨part :: parts, .cons hpart hparts, rfl⟩

theorem fails_iff {selection : Piece × Option Value} :
    Fails selection ↔ ¬ ∃ part, Gives selection part := by
  constructor
  · rintro hfails ⟨part, hgives⟩
    cases hgives with
    | text => cases hfails
    | directive hpart =>
      cases hfails with
      | unsuited hfault =>
        rw [hpart] at hfault
        cases hfault
  · -- Only a directive with an argument can go either way.
    intro hnone
    match selection with
    | (.text chars, arg) => exact absurd ⟨chars, .text chars arg⟩ hnone
    | (.directive d, none) => exact .unselected d
    | (.directive d, some arg) =>
      cases hpart : formatArgument d.toVerb arg with
      | error fault => exact .unsuited hpart
      | ok part => exact absurd ⟨part.toList, .directive hpart⟩ hnone

/-- Either all pieces become something, or one of them fails. -/
theorem exists_becomes_iff {selected : List (Piece × Option Value)} :
    (∃ text, Becomes selected text) ↔ ∀ selection ∈ selected, ¬ Fails selection := by
  induction selected with
  | nil => simp [becomes_nil_iff]
  | cons selection selected ih =>
    rw [List.forall_mem_cons, ← ih, fails_iff, not_not]
    constructor
    · rintro ⟨text, h⟩
      obtain ⟨part, tail, hpart, htail, -⟩ := becomes_cons_iff.mp h
      exact ⟨⟨part, hpart⟩, tail, htail⟩
    · rintro ⟨⟨part, hpart⟩, tail, htail⟩
      exact ⟨part ++ tail, becomes_cons_iff.mpr ⟨part, tail, hpart, htail, rfl⟩⟩

/-- The digits that name an argument can be read as a number. -/
def Directive.IsReadable (d : Directive) : Prop :=
  ∀ digits ∈ d.explicit, digits.length ≤ digitLimit

instance (d : Directive) : Decidable d.IsReadable :=
  inferInstanceAs (Decidable (∀ digits ∈ d.explicit, _))

/-- All arguments are named by digits that can be read. -/
def Readable (pieces : List Piece) : Prop :=
  ∀ d, Piece.directive d ∈ pieces → d.IsReadable

/-! ## Scanning -/

variable {args : List Value} {fuel offset next : Nat} {pieces : List Piece} {text : List Char}

theorem scanDirective?_percent :
    scanDirective? ('%' :: rest) = some (⟨none, [], none, none, '%'⟩, rest) := by
  have hnumber : takeNumber? ('%' :: rest) = none := by
    refine takeNumber?_eq_none ?_
    rintro c ⟨⟩
    exact Text.isDigit_of_ascii (by decide)
  have hexplicit : takeExplicit ('%' :: rest) = (none, '%' :: rest) := rfl
  have hflags : ('%' :: rest).span isFlag = ([], '%' :: rest) := rfl
  have hprecision : takePrecision ('%' :: rest) = (none, '%' :: rest) := rfl
  simp only [scanDirective?, hexplicit, hflags, hnumber, hprecision]
  rfl

theorem length_doubled_pos (c : Char) : 0 < (doubled c).length := by
  rw [doubled]
  split <;> exact Nat.succ_pos _

/-- A character of a text stands for itself. -/
theorem formatFrom_doubled (args : List Value) (fuel offset next : Nat) (c : Char)
    (rest : List Char) : ∃ offset',
    formatFrom args (fuel + 1) offset next (doubled c ++ rest)
      = (formatFrom args fuel offset' next rest).map (c :: ·) := by
  by_cases hc : c = '%'
  · subst hc
    simp only [doubled, if_true, List.cons_append, List.nil_append, formatFrom,
      scanDirective?_percent]
    exact ⟨_, rfl⟩
  · simp only [doubled, if_neg hc, List.cons_append, List.nil_append, formatFrom]
    exact ⟨_, rfl⟩

/-- A text stands for itself.  How far it leads is left open: the offset is for messages only. -/
theorem formatFrom_text (args : List Value) (fuel offset next : Nat) (chars rest : List Char)
    (hfuel : (chars.flatMap doubled ++ rest).length ≤ fuel) :
    ∃ fuel' offset', rest.length ≤ fuel'
      ∧ formatFrom args fuel offset next (chars.flatMap doubled ++ rest)
        = (formatFrom args fuel' offset' next rest).map (chars ++ ·) := by
  induction chars generalizing fuel offset with
  | nil =>
    refine ⟨fuel, offset, hfuel, ?_⟩
    show formatFrom args fuel offset next rest = _
    cases formatFrom args fuel offset next rest <;> rfl
  | cons c chars ih =>
    rw [List.flatMap_cons, List.append_assoc] at hfuel ⊢
    have hpositive := length_doubled_pos c
    rw [List.length_append] at hfuel
    obtain ⟨fuel, rfl⟩ : ∃ n, fuel = n + 1 := Nat.exists_eq_add_one.mpr (by omega)
    obtain ⟨offset₁, hfirst⟩ :=
      formatFrom_doubled args fuel offset next c (chars.flatMap doubled ++ rest)
    obtain ⟨fuel', offset', hle, hothers⟩ := ih fuel offset₁ (by omega)
    refine ⟨fuel', offset', hle, ?_⟩
    rw [hfirst, hothers]
    cases formatFrom args fuel' offset' next rest <;> rfl

theorem readCount_eq_ok_iff {n : Nat} :
    readCount digits = .ok n ↔ digits.length ≤ digitLimit ∧ n = Text.natOfDigits digits := by
  rw [readCount]
  split
  · next hlong => simp [Nat.not_le.mpr hlong]
  · next hshort => simp [Nat.not_lt.mp hshort, eq_comm]

theorem argumentIndex_eq_ok_iff {d : Directive} {index? : Option Nat} :
    argumentIndex d.toVerb next = .ok index? ↔ d.IsReadable ∧ d.index? next = index? := by
  rw [argumentIndex, Directive.IsReadable, Verb.index?]
  cases d.explicit with
  | none => simp
  | some digits =>
    rw [bind_eq_ok_iff]
    simp only [readCount_eq_ok_iff, Option.mem_some_iff, forall_eq', and_assoc, exists_and_left,
      exists_eq_left]
    refine and_congr_right fun _ => ?_
    cases Text.natOfDigits digits with
    | zero => exact Except.ok.injEq none index? ▸ Iff.rfl
    | succ n => exact Except.ok.injEq (some n) index? ▸ Iff.rfl

theorem argumentIndex_bind_eq_ok_iff {d : Directive} {α : Type} {f : Option Nat → Outcome α}
    {a : α} :
    argumentIndex d.toVerb next >>= f = .ok a ↔ d.IsReadable ∧ f (d.index? next) = .ok a := by
  simp only [bind_eq_ok_iff, argumentIndex_eq_ok_iff, and_assoc, exists_and_left, exists_eq_left']

/-- A directive becomes its argument, and what follows it counts the arguments from there. -/
theorem formatFrom_directive_eq_ok_iff {d : Directive} :
    formatFrom args (fuel + 1) offset next ('%' :: (d.chars ++ rest)) = .ok text ↔
      d.IsReadable ∧ ∃ index arg part tail, d.selected? args next = some (index, arg)
        ∧ formatArgument d.toVerb arg = .ok part
        ∧ formatFrom args fuel (offset + 1 + d.chars.length) (index + 1) rest = .ok tail
        ∧ text = part.toList ++ tail := by
  have hoffset : offset + 1 + ((d.chars ++ rest).length - rest.length)
      = offset + 1 + d.chars.length := by
    rw [List.length_append, Nat.add_sub_cancel]
  simp only [formatFrom, if_true, scanDirective?_append, if_neg d.verb_ne_percent, hoffset]
  rw [argumentIndex_bind_eq_ok_iff]
  refine and_congr_right fun _ => ?_
  rw [← Verb.selected?]
  cases hselected : d.selected? args next with
  | none =>
    constructor
    · intro h
      cases h
    · rintro ⟨_, _, _, _, h, -⟩
      cases h
  | some found =>
    obtain ⟨index, arg⟩ := found
    simp only [bind_eq_ok_iff]
    constructor
    · rintro ⟨part, hpart, tail, htail, htext⟩
      exact ⟨index, arg, part, tail, rfl, hpart, htail, (Except.ok.inj htext).symm⟩
    · rintro ⟨_, _, part, tail, ⟨⟩, hpart, htail, rfl⟩
      exact ⟨part, hpart, tail, htail, rfl⟩

theorem readable_cons_text {chars : List Char} :
    Readable (.text chars :: pieces) ↔ Readable pieces := by
  simp [Readable]

theorem readable_cons_directive {d : Directive} :
    Readable (.directive d :: pieces) ↔ d.IsReadable ∧ Readable pieces := by
  simp [Readable]

/-- A format becomes what its pieces become. -/
theorem formatFrom_eq_ok_iff (hfuel : (written pieces).length ≤ fuel) :
    formatFrom args fuel offset next (written pieces) = .ok text ↔
      Readable pieces ∧ Becomes (selections args next pieces) text := by
  induction pieces generalizing fuel offset next text with
  | nil =>
    have hnil : formatFrom args fuel offset next (written []) = .ok [] := by
      cases fuel <;> rfl
    have hreadable : Readable [] := fun d hd => absurd hd List.not_mem_nil
    rw [hnil, selections, becomes_nil_iff, Except.ok.injEq, eq_comm, and_iff_right hreadable]
  | cons piece pieces ih =>
    cases piece with
    | text chars =>
      obtain ⟨fuel', offset', hrest, htext⟩ :=
        formatFrom_text args fuel offset next chars (written pieces) hfuel
      rw [show written (.text chars :: pieces) = chars.flatMap doubled ++ written pieces from rfl,
        htext, map_eq_ok_iff, readable_cons_text, selections, becomes_cons_iff]
      constructor
      · rintro ⟨tail, htail, rfl⟩
        obtain ⟨hreadable, hbecomes⟩ := (ih hrest).mp htail
        exact ⟨hreadable, chars, tail, .text chars none, hbecomes, rfl⟩
      · rintro ⟨hreadable, _, tail, ⟨⟩, hbecomes, rfl⟩
        exact ⟨tail, (ih hrest).mpr ⟨hreadable, hbecomes⟩, rfl⟩
    | directive d =>
      have hwritten : written (.directive d :: pieces) = '%' :: (d.chars ++ written pieces) := rfl
      rw [hwritten] at hfuel ⊢
      rw [List.length_cons, List.length_append] at hfuel
      obtain ⟨fuel, rfl⟩ : ∃ n, fuel = n + 1 := Nat.exists_eq_add_one.mpr (by omega)
      -- The fuel counts characters, and a directive takes one step for several of them.
      have hrest : (written pieces).length ≤ fuel := by omega
      rw [formatFrom_directive_eq_ok_iff, readable_cons_directive, selections, and_assoc]
      refine and_congr_right fun _ => ?_
      cases d.selected? args next with
      | none =>
        rw [becomes_cons_iff]
        constructor
        · rintro ⟨_, _, _, _, ⟨⟩, -⟩
        · rintro ⟨-, _, _, ⟨⟩, -⟩
      | some found =>
        obtain ⟨index, arg⟩ := found
        rw [becomes_cons_iff]
        constructor
        · rintro ⟨_, _, part, tail, ⟨⟩, hpart, htail, rfl⟩
          obtain ⟨hreadable, hbecomes⟩ := (ih hrest).mp htail
          exact ⟨hreadable, part.toList, tail, .directive hpart, hbecomes, rfl⟩
        · rintro ⟨hreadable, _, tail, hgives, hbecomes, rfl⟩
          cases hgives with
          | directive hpart =>
            exact ⟨index, arg, _, tail, rfl, hpart, (ih hrest).mpr ⟨hreadable, hbecomes⟩, rfl⟩

/-! ## Widths -/

theorem length_pad (d : Verb) (width : Nat) (text : String) :
    (pad d width text).length = max width text.length := by
  have hlength : text.toList.length = text.length := String.length_toList
  have hmax : width - text.length + text.length = max width text.length :=
    Nat.sub_add_eq_max _ _
  simp only [pad, hlength]
  split
  · rw [String.length_ofList, List.length_append, List.length_replicate, hlength, Nat.add_comm,
      hmax]
  · split
    · -- A sign is among the characters that are counted, wherever the zeros go.
      split
      · next c cs hcs =>
        rw [hcs, List.length_cons] at hlength
        split
        · rw [String.length_ofList, List.length_cons, List.length_append, List.length_replicate,
            Nat.add_assoc, hlength, hmax]
        · rw [String.length_ofList, List.length_append, List.length_replicate, String.length_toList,
            hmax]
      · next hnil =>
        rw [hnil, List.length_nil] at hlength
        rw [String.length_ofList, List.length_replicate, ← hmax, ← hlength, Nat.add_zero]
    · rw [String.length_ofList, List.length_append, List.length_replicate, hlength, hmax]

/-- A text is brought to the width of its directive if it is shorter. -/
theorem formatArgument_width {d : Verb} {arg : Value} {part : String}
    (hwidth : d.width = some digits) (h : formatArgument d arg = .ok part) : ∃ bare,
      formatArgument { d with width := none } arg = .ok bare
        ∧ part.length = max (Text.natOfDigits digits) bare.length := by
  simp only [formatArgument, bind_eq_ok_iff, hwidth] at h ⊢
  obtain ⟨bare, hbare, n, hn, h⟩ := h
  refine ⟨bare, ⟨bare, hbare, rfl⟩, ?_⟩
  obtain ⟨-, rfl⟩ := readCount_eq_ok_iff.mp hn
  split at h
  · next hle =>
    cases h
    exact (Nat.max_eq_right hle).symm
  · obtain ⟨_, _, h⟩ := bind_eq_ok_iff.mp h
    cases h
    exact length_pad d _ bare

/-! ## Calls -/

theorem format_problem? (spec : String) (args : List Value) :
    formatFunction.signature.problem? (.string spec :: args) = none := by
  have hcount : formatFunction.signature.acceptsCount (args.length + 1) = true :=
    (Bool.and_true _).trans (decide_eq_true (Nat.le_add_left 1 _))
  rw [Signature.problem?, List.length_cons, if_pos hcount]
  show formatFunction.signature.argumentsProblem? 1 args = none
  refine Signature.argumentsProblem?_variadic (Nat.le_refl 1) rfl fun arg _ place => ?_
  cases arg <;> rfl

theorem format_isUnknownCall (spec : String) (hknown : Value.anyContainsUnknown args = false) :
    formatFunction.signature.isUnknownCall (.string spec :: args) = false :=
  (Bool.false_or _).trans hknown

theorem call_format_eq_ok_iff {spec : String} (hknown : Value.anyContainsUnknown args = false)
    {span : Option Span} {v : Value} :
    standard.call "format" (.string spec :: args) span = .ok v ↔
      ∃ text, format spec args = .ok text ∧ .string text = v := by
  rw [call_eq_ok_iff "format" (.string spec :: args) rfl (format_problem? spec args)
    (format_isUnknownCall spec hknown)]
  exact map_eq_ok_iff

theorem format_written_eq_ok_iff {text : String} :
    format (String.ofList (written pieces)) args = .ok text ↔
      Readable pieces ∧ ∃ chars, Becomes (selections args 0 pieces) chars
        ∧ String.ofList chars = text := by
  simp only [format, String.toList_ofList, bind_eq_ok_iff, formatFrom_eq_ok_iff (Nat.le_refl _),
    and_assoc, exists_and_left]
  refine and_congr_right fun _ => exists_congr fun chars => and_congr_right fun _ => ?_
  exact Except.ok.injEq _ text ▸ Iff.rfl

/-- A format that is written from pieces becomes the pieces' texts with an argument for each
directive, and fails just if some directive takes no argument or one that does not suit it, as long
as the digits that name arguments can be read; if they cannot, it fails.  A directive with a width
becomes a text of that width, or a longer one. -/
theorem format_pieces (pieces : List Piece) (args : List Value)
    (hknown : Value.anyContainsUnknown args = false) (span : Option Span) :
    let spec := String.ofList (written pieces)
    let outcome := standard.call "format" (.string spec :: args) span
    (Readable pieces →
      (∀ v, outcome = .ok v ↔
          ∃ text, Becomes (selections args 0 pieces) text ∧ v = .string (String.ofList text))
        ∧ ((∃ fault, outcome = .error fault) ↔ ∃ selection ∈ selections args 0 pieces,
            Fails selection))
      ∧ (¬ Readable pieces → ∃ fault, outcome = .error fault)
      ∧ ∀ (d : Verb) (digits : List Char) (arg : Value) (part : String), d.width = some digits →
          formatArgument d arg = .ok part → ∃ bare,
            formatArgument { d with width := none } arg = .ok bare
              ∧ part.length = max (Text.natOfDigits digits) bare.length := by
  intro spec outcome
  have houtcome (v : Value) : outcome = .ok v ↔ Readable pieces
      ∧ ∃ text, Becomes (selections args 0 pieces) text ∧ v = .string (String.ofList text) := by
    rw [call_format_eq_ok_iff hknown]
    constructor
    · rintro ⟨_, htext, rfl⟩
      obtain ⟨hreadable, text, hbecomes, rfl⟩ := format_written_eq_ok_iff.mp htext
      exact ⟨hreadable, text, hbecomes, rfl⟩
    · rintro ⟨hreadable, text, hbecomes, rfl⟩
      exact ⟨_, format_written_eq_ok_iff.mpr ⟨hreadable, text, hbecomes, rfl⟩, rfl⟩
  refine ⟨fun hreadable => ⟨fun v => ?value, ?problem⟩, fun hunreadable => ?unreadable,
    fun d digits arg part hwidth hpart => formatArgument_width hwidth hpart⟩
  case value =>
    rw [houtcome, and_iff_right hreadable]
  case problem =>
    have hsome : (∃ v, outcome = .ok v) ↔ ∃ text, Becomes (selections args 0 pieces) text := by
      simp only [houtcome, and_iff_right hreadable]
      exact ⟨fun ⟨_, text, hbecomes, _⟩ => ⟨text, hbecomes⟩,
        fun ⟨text, hbecomes⟩ => ⟨_, text, hbecomes, rfl⟩⟩
    rw [exists_error_iff, hsome, exists_becomes_iff]
    simp only [not_forall, not_not, exists_prop]
  case unreadable =>
    rw [exists_error_iff]
    rintro ⟨v, hv⟩
    exact hunreadable ((houtcome v).mp hv).1

/-- The percent signs of the texts are single again, one directive names its argument, and the other
one goes on from there. -/
theorem format_pieces_report :
    let number : Directive := ⟨⟨some ['2'], ['0'], some ['5'], some ['1'], 'f'⟩, by decide +kernel,
      by decide +kernel, by decide +kernel, by decide +kernel, by decide +kernel, by decide +kernel⟩
    let word : Directive := ⟨⟨none, ['-'], some ['4'], none, 's'⟩, by decide +kernel,
      by decide +kernel, by decide +kernel, by decide +kernel, by decide +kernel, by decide +kernel⟩
    let pieces : List Piece :=
      [.text ['1', '0', '0', '%', ' '], .directive number, .text ['%'], .directive word]
    let args : List Value := [.string "a", .ofNat 7, .string "b"]
    Value.anyContainsUnknown args = false ∧ Readable pieces
      ∧ written pieces = "100%% %[2]05.1f%%%-4s".toList
      ∧ standard.call "format" (.string (String.ofList (written pieces)) :: args) none
        = .ok (.string "100% 007.0%b   ")
      ∧ ∃ fault,
        standard.call "format" [.string (String.ofList (written pieces)), .string "a"] none
          = .error fault := by
  intro number word pieces args
  have hreadable : Readable pieces :=
    readable_cons_text.mpr (readable_cons_directive.mpr ⟨by decide +kernel, readable_cons_text.mpr
      (readable_cons_directive.mpr ⟨by decide +kernel, fun d hd => absurd hd List.not_mem_nil⟩)⟩)
  have hselections : selections args 0 pieces = [(.text ['1', '0', '0', '%', ' '], none),
      (.directive number, some (.ofNat 7)), (.text ['%'], none),
      (.directive word, some (.string "b"))] :=
    rfl
  have hnumber : formatArgument number.toVerb (.ofNat 7) = .ok "007.0" :=
    toOption_eq_some_iff.mp (by decide +kernel)
  have hword : formatArgument word.toVerb (.string "b") = .ok "b   " := rfl
  have hmissing : selections [.string "a"] 0 pieces = [(.text ['1', '0', '0', '%', ' '], none),
      (.directive number, none), (.text ['%'], none), (.directive word, some (.string "a"))] :=
    rfl
  refine ⟨rfl, hreadable, by decide +kernel, ?value, ?problem⟩
  case value =>
    refine (((format_pieces pieces args rfl none).1 hreadable).1 _).mpr ⟨_, ?_, rfl⟩
    rw [hselections]
    exact ⟨_, .cons (.text _ _) (.cons (.directive hnumber) (.cons (.text _ _)
      (.cons (.directive hword) .nil))), rfl⟩
  case problem =>
    refine ((format_pieces pieces [.string "a"] rfl none).1 hreadable).2.mpr
      ⟨(.directive number, none), ?_, .unselected number⟩
    rw [hmissing]
    simp

/-! ### Argument numbers that are not read -/

/-- More digits than may be read stop the format. -/
theorem formatFrom_overlong {d : Directive} (hexplicit : d.explicit = some digits)
    (hlong : digitLimit < digits.length) :
    formatFrom args (fuel + 1) offset next ('%' :: (d.chars ++ rest))
      = .error (.defect (.tooManyDigits (some digits.length))) := by
  have hread : readCount digits = .error (.defect (.tooManyDigits (some digits.length))) :=
    if_pos hlong
  simp only [formatFrom, if_true, scanDirective?_append, if_neg d.verb_ne_percent, argumentIndex,
    hexplicit, hread]
  rfl

/-- Digits that are not read are not made a problem of the function. -/
theorem call_format_of_tooManyDigits {spec : String} {count : Option Nat}
    (hknown : Value.anyContainsUnknown args = false)
    (hformat : format spec args = .error (.defect (.tooManyDigits count))) (span : Option Span) :
    standard.call "format" (.string spec :: args) span
      = .error (.defect (.tooManyDigits count)) := by
  have hfound : standard.find? "format" = some formatFunction := rfl
  have hrun : formatFunction.run (.string spec :: args)
      = .error (.defect (.tooManyDigits count)) := by
    show (format spec args).map Value.string = _
    rw [hformat]
    rfl
  simp only [call, hfound, Function.invoke, format_problem?, format_isUnknownCall spec hknown, hrun]
  rfl

theorem natOfDigits_zeros (zeros : Nat) (cs : List Char) :
    Text.natOfDigits (List.replicate zeros '0' ++ cs) = Text.natOfDigits cs := by
  induction zeros with
  | zero => rfl
  | succ zeros ih => exact ih

/-- The directive that names the first argument, with zeros in front of the one. -/
def firstNamed (zeros : Nat) : Directive where
  explicit := some (List.replicate zeros '0' ++ ['1'])
  flags := []
  width := none
  precision := none
  verb := 's'
  isNumber_explicit := by
    have hzero : Text.isDigit '0' = true := by decide +kernel
    have hone : Text.isDigit '1' = true := by decide +kernel
    rintro _ ⟨⟩
    simp [isNumber, hzero, hone]
  isFlag_flags := rfl
  isNumber_width := by decide
  head_width_ne := by decide
  isNumber_precision := by decide
  isAlpha_verb := by decide

/-- Zeros in front do not change which argument is named. -/
theorem selections_firstNamed (zeros : Nat) (arg : Value) :
    selections [arg] 0 [.directive (firstNamed zeros)]
      = [(.directive (firstNamed zeros), some arg)] := by
  have hindex : (firstNamed zeros).index? 0 = some 0 := by
    have hone : Text.natOfDigits (List.replicate zeros '0' ++ ['1']) = 1 :=
      natOfDigits_zeros zeros ['1']
    simp only [Verb.index?, firstNamed, hone]
  have hselected : (firstNamed zeros).selected? [arg] 0 = some (0, arg) := by
    rw [Verb.selected?, hindex]
    rfl
  rw [selections, hselected]
  rfl

/-- With too many zeros in front of the one, no argument is taken. -/
theorem call_format_firstNamed {zeros : Nat} (hzeros : digitLimit ≤ zeros) {arg : Value}
    (hknown : Value.anyContainsUnknown [arg] = false) (span : Option Span) :
    standard.call "format" [.string (String.ofList (written [.directive (firstNamed zeros)])), arg]
      span = .error (.defect (.tooManyDigits (some (zeros + 1)))) := by
  have hlength : (List.replicate zeros '0' ++ ['1']).length = zeros + 1 := by
    rw [List.length_append, List.length_replicate, List.length_singleton]
  have hlong : digitLimit < (List.replicate zeros '0' ++ ['1']).length := by
    rw [hlength]
    exact Nat.lt_succ_of_le hzeros
  have hwritten :
      written [.directive (firstNamed zeros)] = '%' :: ((firstNamed zeros).chars ++ []) :=
    rfl
  refine call_format_of_tooManyDigits hknown ?_ span
  rw [format, String.toList_ofList, hwritten, List.length_cons, formatFrom_overlong rfl hlong,
    hlength]
  rfl

/-- With 4300 zeros in front of the one, a directive names the first argument, which suits it, and
yet the format fails. -/
theorem format_overlong_number :
    let d := firstNamed digitLimit
    selections [.string "x"] 0 [.directive d] = [(.directive d, some (.string "x"))]
      ∧ formatArgument d.toVerb (.string "x") = .ok "x"
      ∧ standard.call "format" [.string (String.ofList (written [.directive d])), .string "x"] none
        = .error (.defect (.tooManyDigits (some 4301))) :=
  ⟨selections_firstNamed digitLimit _, rfl, call_format_firstNamed (Nat.le_refl _) rfl none⟩

end Groundplan.Library
