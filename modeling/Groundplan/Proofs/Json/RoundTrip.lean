import Groundplan.Json
import Groundplan.Proofs.Table
import Groundplan.Proofs.Text.Characters

/-!
# JSON Documents Are Read Back

The text of a document is read as the document.  A string is read character by character: an escape
is told from the characters that stand for themselves by its backslash, and the two halves of a
pair of code units lie where no character has its code.  Numbers have no delimiters, so what
follows a document must not go on with one.

## Main Definitions

- `Json.IsNumeral`, `Json.IsWellWritten`: documents whose numbers have a form of their own and
  whose objects have different keys

## Main Statements

- `Json.readString_escape`: one character of a string
- `Json.readFrom_text`: a document in front of a text that does not go on with a number
- `Json.read?_text`: a document is read back
- `Json.text_inj`: different documents have different texts
-/

namespace Groundplan

/-! ## Hexadecimal digits -/

namespace Text

/-- One more place in front of the last digit. -/
theorem hex_succ {width : Nat} (hwidth : 0 < width) (n : Nat) :
    hex (width + 1) n = hex width (n / 16) ++ [Nat.digitChar (n % 16)] := by
  obtain ⟨width, rfl⟩ := Nat.exists_eq_succ_of_ne_zero (Nat.ne_of_gt hwidth)
  unfold hex
  by_cases hn : n < 16
  · rw [Nat.toDigits_of_lt_base hn, Nat.div_eq_of_lt hn, Nat.mod_eq_of_lt hn, Nat.toDigits_zero]
    simp [List.replicate_succ']
  · rw [Nat.toDigits_of_base_le (by decide) (Nat.le_of_not_lt hn)]
    simp

/-- A code unit in four digits. -/
theorem hex_four {n : Nat} (hn : n < 65536) :
    hex 4 n = [Nat.digitChar (n / 4096), Nat.digitChar (n / 256 % 16),
      Nat.digitChar (n / 16 % 16), Nat.digitChar (n % 16)] := by
  have hone : hex 1 (n / 4096) = [Nat.digitChar (n / 4096)] := by
    rw [hex, Nat.toDigits_of_lt_base (by omega)]
    rfl
  rw [hex_succ (by decide), hex_succ (by decide), hex_succ (by decide), Nat.div_div_eq_div_mul,
    Nat.div_div_eq_div_mul, Nat.div_div_eq_div_mul, hone]
  rfl

end Text

namespace Json

/-! ## Strings -/

theorem digitOf_digitChar {d : Nat} (hd : d < 16) : digitOf (Nat.digitChar d) = d := by
  have hall : ∀ d < 16, digitOf (Nat.digitChar d) = d := by decide
  exact hall d hd

/-- The digits of a code unit are read as the unit. -/
theorem readString_unit {n : Nat} (hn : n < 65536) (lead : Option Nat) (read rest : List Char) :
    readString lead read (Text.escapeUnit n ++ rest) =
      match lead with
      | some high =>
        readString none (Char.ofNat (0x10000 + (high - 0xD800) * 0x400 + (n - 0xDC00)) :: read) rest
      | none =>
        if 0xD800 ≤ n && n < 0xDC00 then readString (some n) read rest
        else readString none (Char.ofNat n :: read) rest := by
  have hunit : unitOf (Nat.digitChar (n / 4096)) (Nat.digitChar (n / 256 % 16))
      (Nat.digitChar (n / 16 % 16)) (Nat.digitChar (n % 16)) = n := by
    unfold unitOf
    rw [digitOf_digitChar (by omega), digitOf_digitChar (by omega), digitOf_digitChar (by omega),
      digitOf_digitChar (by omega)]
    omega
  rw [Text.escapeUnit, Text.hex_four hn]
  cases lead <;> simp only [List.cons_append, List.nil_append, readString, hunit]

/-- No character has its code where the halves of pairs lie. -/
theorem toNat_isValid (c : Char) : c.toNat < 0xD800 ∨ 0xDFFF < c.toNat ∧ c.toNat < 0x110000 :=
  c.valid

/-- A character of a string is read back. -/
theorem readString_escape (c : Char) (read rest : List Char) :
    readString none read (Text.escapeJson c ++ rest) = readString none (c :: read) rest := by
  have hvalid := toNat_isValid c
  unfold Text.escapeJson
  split
  case h_8 hquote hslash _ _ _ _ _ =>
    dsimp only
    split_ifs with hprintable hplane
    · -- It stands for itself.
      rw [List.singleton_append, readString]
      · exact fun h => hquote h
      all_goals intros; simp_all
    · rw [readString_unit hplane]
      have hunpaired : (0xD800 ≤ c.toNat && c.toNat < 0xDC00) = false := by
        simp only [Bool.and_eq_false_iff, decide_eq_false_iff_not]
        omega
      simp only [hunpaired, Char.ofNat_toNat]
      rfl
    · -- The first half is kept until the second one has been read.
      rw [List.append_assoc, readString_unit (by omega)]
      have hfirst : (0xD800 ≤ 0xD800 + (c.toNat - 0x10000) / 0x400
          && 0xD800 + (c.toNat - 0x10000) / 0x400 < 0xDC00) = true := by
        simp only [Bool.and_eq_true, decide_eq_true_eq]
        omega
      simp only [hfirst, if_true]
      rw [readString_unit (by omega)]
      have hcode : 0x10000 + (0xD800 + (c.toNat - 0x10000) / 0x400 - 0xD800) * 0x400
          + (0xDC00 + (c.toNat - 0x10000) % 0x400 - 0xDC00) = c.toNat := by omega
      simp only [hcode, Char.ofNat_toNat]
  all_goals rfl

/-- A string is read up to the quote that closes it. -/
theorem readString_escapes (cs read rest : List Char) :
    readString none read (cs.flatMap Text.escapeJson ++ '"' :: rest) =
      some (String.ofList (read.reverse ++ cs), rest) := by
  induction cs generalizing read with
  | nil => simp [readString_quote]
  | cons c cs ih =>
    rw [List.flatMap_cons, List.append_assoc, readString_escape, ih]
    simp

theorem toList_quoteJson (s : String) (rest : List Char) :
    (Text.quoteJson s).toList ++ rest =
      '"' :: (s.toList.flatMap Text.escapeJson ++ '"' :: rest) := by
  simp [Text.quoteJson]

theorem readString_quoteJson (s : String) (rest : List Char) :
    readString none [] (s.toList.flatMap Text.escapeJson ++ '"' :: rest) = some (s, rest) := by
  simp [readString_escapes]

/-! ## Documents that can be told apart -/

/-- A number that is neither empty nor one of the words. -/
def IsNumeral (written : String) : Prop :=
  written ≠ "" ∧ ∀ c ∈ written.toList, c.isDigit = true ∨ c = '-' ∨ c = '.'

mutual

/-- Numbers are numerals and the keys of an object are different, at every depth. -/
def IsWellWritten : Json → Prop
  | .number written => IsNumeral written
  | .array items => ItemsWellWritten items
  | .object members => (Table.keys members).Nodup ∧ MembersWellWritten members
  | .null | .bool _ | .string _ => True

/-- Some documents are well written. -/
def ItemsWellWritten : List Json → Prop
  | [] => True
  | j :: js => IsWellWritten j ∧ ItemsWellWritten js

/-- The documents of some members are well written. -/
def MembersWellWritten : List (String × Json) → Prop
  | [] => True
  | (_, j) :: members => IsWellWritten j ∧ MembersWellWritten members

end

/-! ## Beginnings and ends -/

/-- What follows a document does not go on with a number. -/
def EndsNumber (rest : List Char) : Prop :=
  ∀ c ∈ rest.head?, isNumeric c = false

theorem isNumeric_of_numeral {c : Char} (h : c.isDigit = true ∨ c = '-' ∨ c = '.') :
    isNumeric c = true := by
  rcases h with h | rfl | rfl
  · simp [isNumeric, Char.isAlphanum, h]
  · decide
  · decide

/-- A character with which a document can begin. -/
def isStart (c : Char) : Bool :=
  c == '"' || c == '[' || c == '\x7b' || isNumeric c

/-- A document begins with a character that neither separates nor closes anything. -/
theorem exists_text_eq_cons {j : Json} (h : j.IsWellWritten) :
    ∃ c cs, j.text.toList = c :: cs ∧ isStart c = true := by
  cases j with
  | null => exact ⟨_, _, rfl, by decide⟩
  | bool b => cases b <;> exact ⟨_, _, rfl, by decide⟩
  | number written =>
    simp only [IsWellWritten] at h
    cases hchars : written.toList with
    | nil => exact absurd (String.toList_eq_nil_iff.mp hchars) h.1
    | cons c cs =>
      have hc := isNumeric_of_numeral (h.2 c (by simp [hchars]))
      exact ⟨c, cs, by simp only [text, hchars], by simp [isStart, hc]⟩
  | string s => exact ⟨'"', _, by simpa [text_string] using toList_quoteJson s [], by decide⟩
  | array items => exact ⟨'[', _, by simp [text_array]; rfl, by decide⟩
  | object members => exact ⟨'\x7b', _, by simp [text_object]; rfl, by decide⟩

/-- Texts with a comma in front of each. -/
def separated (texts : List String) : List Char :=
  texts.flatMap fun t => ',' :: t.toList

theorem cons_toList_intercalate (t : String) (ts : List String) :
    ',' :: (",".intercalate (t :: ts)).toList = separated (t :: ts) := by
  induction ts generalizing t with
  | nil => simp [separated]
  | cons u ts ih =>
    rw [String.intercalate_cons_cons, String.toList_append, String.toList_append, List.append_assoc]
    exact congrArg (',' :: t.toList ++ ·) (ih u)

theorem toList_text_array (items : List Json) (rest : List Char) :
    (Json.array items).text.toList ++ rest =
      '[' :: ((",".intercalate (itemTexts items)).toList ++ ']' :: rest) := by
  simp [-String.toList_intercalate, text_array]

theorem toList_text_object (members : List (String × Json)) (rest : List Char) :
    (Json.object members).text.toList ++ rest =
      '\x7b' :: ((",".intercalate (memberTexts members)).toList ++ '\x7d' :: rest) := by
  simp [-String.toList_intercalate, text_object]

theorem endsNumber_separated (texts : List String) {c : Char} (hc : isNumeric c = false)
    (rest : List Char) : EndsNumber (separated texts ++ c :: rest) := by
  cases texts with
  | nil => simpa [EndsNumber, separated] using hc
  | cons t ts =>
    have hcomma : isNumeric ',' = false := by decide
    simpa [EndsNumber, separated] using hcomma

/-! ## Documents -/

section Steps

variable {fuel : Nat} {c : Char} {cs rest : List Char}

theorem isGap_of_isStart (hc : isStart c = true) : isGap c = false := by
  by_contra hgap
  simp only [isGap, Bool.not_eq_false, Bool.or_eq_true, beq_iff_eq] at hgap
  rcases hgap with ((rfl | rfl) | rfl) | rfl <;> revert hc <;> decide

/-- A word is read to its end. -/
theorem readFrom_word {word : String} : (∀ c ∈ word.toList, isNumeric c = true) → word ≠ "" →
    EndsNumber rest → readFrom (fuel + 1) (word.toList ++ rest) =
      match word with
      | "" => none
      | "null" => some (.null, rest)
      | "true" => some (.bool true, rest)
      | "false" => some (.bool false, rest)
      | written => some (.number written, rest) := by
  intro hword hne hrest
  have hspan := Text.span_append_of_stop hword hrest
  cases hchars : word.toList with
  | nil => exact absurd (String.toList_eq_nil_iff.mp hchars) hne
  | cons c cs =>
    have hc : isNumeric c = true := hword c (by simp [hchars])
    have hquote : c ≠ '"' := by rintro rfl; revert hc; decide
    have hbracket : c ≠ '[' := by rintro rfl; revert hc; decide
    have hbrace : c ≠ '\x7b' := by rintro rfl; revert hc; decide
    have hgap : isGap c = false := isGap_of_isStart (by simp [isStart, hc])
    rw [hchars, List.cons_append] at hspan
    have hword' : String.ofList (c :: cs) = word := by rw [← hchars, String.ofList_toList]
    rw [readFrom, List.cons_append, List.dropWhile_cons_of_neg (by simp [hgap])]
    split
    case h_1 heq => exact absurd (List.cons.inj heq).1 hquote
    case h_2 heq => exact absurd (List.cons.inj heq).1 hbracket
    case h_3 heq => exact absurd (List.cons.inj heq).1 hbrace
    case h_4 =>
      rw [hspan]
      subst hword'
      rfl

theorem readItems_item {j : Json} {read : List Json} (hc : isStart c = true)
    (hitem : readFrom fuel (c :: cs) = some (j, rest)) :
    readItems (fuel + 1) read (c :: cs) = readItems fuel (j :: read) rest := by
  have hgap := isGap_of_isStart hc
  have hclose : c ≠ ']' := by rintro rfl; revert hc; decide
  have hcomma : c ≠ ',' := by rintro rfl; revert hc; decide
  rw [readItems, List.dropWhile_cons_of_neg (by simp [hgap])]
  simp [hclose, hcomma, hitem]

theorem readMembers_member {key : String} {j : Json} {read : List (String × Json)}
    (hvalue : readFrom fuel cs = some (j, rest)) :
    readMembers (fuel + 1) read ((Text.quoteJson key).toList ++ ':' :: cs) =
      readMembers fuel ((key, j) :: read) rest := by
  rw [toList_quoteJson, readMembers, List.dropWhile_cons_of_neg (by decide)]
  simp [readString_quoteJson, isGap, hvalue]

theorem readFrom_numeral {written : String} (h : IsNumeral written) (hrest : EndsNumber rest) :
    readFrom (fuel + 1) (written.toList ++ rest) = some (.number written, rest) := by
  have hchars : ∀ c ∈ written.toList, isNumeric c = true :=
    fun c hc => isNumeric_of_numeral (h.2 c hc)
  rw [readFrom_word hchars h.1 hrest]
  -- None of the words is a numeral.
  split
  · exact absurd rfl h.1
  · exact absurd (h.2 'n' (by decide)) (by decide)
  · exact absurd (h.2 't' (by decide)) (by decide)
  · exact absurd (h.2 'f' (by decide)) (by decide)
  · rfl

end Steps

theorem text_length_pos {j : Json} (h : j.IsWellWritten) : 0 < j.text.toList.length := by
  obtain ⟨c, cs, hchars, _⟩ := exists_text_eq_cons h
  simp [hchars]

mutual

/-- A document is read in front of what does not go on with a number. -/
theorem readFrom_text {j : Json} (h : j.IsWellWritten) {fuel : Nat}
    (hfuel : j.text.toList.length ≤ fuel + 1) {rest : List Char} (hrest : EndsNumber rest) :
    readFrom (fuel + 1) (j.text.toList ++ rest) = some (j, rest) := by
  cases j with
  | null =>
    rw [text, readFrom_word (List.all_eq_true.mp rfl) (by decide) hrest]
    rfl
  | bool b =>
    cases b
    · rw [text, if_neg (by decide), readFrom_word (List.all_eq_true.mp rfl) (by decide) hrest]
      rfl
    · rw [text, if_pos rfl, readFrom_word (List.all_eq_true.mp rfl) (by decide) hrest]
      rfl
  | number written =>
    simp only [IsWellWritten] at h
    exact readFrom_numeral h hrest
  | string s =>
    rw [text_string, toList_quoteJson, readFrom_quote, readString_quoteJson]
    rfl
  | array items =>
    cases items with
    | nil =>
      have hpositive : fuel ≠ 0 := by
        rintro rfl
        simp [text_array] at hfuel
      obtain ⟨fuel, rfl⟩ := Nat.exists_eq_succ_of_ne_zero hpositive
      rw [toList_text_array, readFrom_bracket]
      exact readItems_bracket []
    | cons item items =>
      simp only [IsWellWritten] at h
      -- A comma that is skipped does not matter, and with it all items look alike.
      have hcomma : ',' :: (",".intercalate (itemTexts (item :: items))).toList =
          separated (itemTexts (item :: items)) := cons_toList_intercalate _ _
      have hlength := congrArg List.length hcomma
      rw [← List.append_nil (text _).toList, toList_text_array] at hfuel
      simp only [List.length_cons, List.length_append, List.length_nil] at hfuel hlength
      rw [toList_text_array, readFrom_bracket, ← readItems_comma, ← List.cons_append, hcomma,
        readItems_texts h (by omega), List.reverse_nil, List.nil_append]
  | object members =>
    cases members with
    | nil =>
      have hpositive : fuel ≠ 0 := by
        rintro rfl
        simp [text_object] at hfuel
      obtain ⟨fuel, rfl⟩ := Nat.exists_eq_succ_of_ne_zero hpositive
      rw [toList_text_object, readFrom_brace]
      exact readMembers_brace []
    | cons member members =>
      obtain ⟨key, j⟩ := member
      simp only [IsWellWritten] at h
      have hcomma : ',' :: (",".intercalate (memberTexts ((key, j) :: members))).toList =
          separated (memberTexts ((key, j) :: members)) := cons_toList_intercalate _ _
      have hlength := congrArg List.length hcomma
      rw [← List.append_nil (text _).toList, toList_text_object] at hfuel
      simp only [List.length_cons, List.length_append, List.length_nil] at hfuel hlength
      rw [toList_text_object, readFrom_brace, ← readMembers_comma, ← List.cons_append, hcomma,
        readMembers_texts h.2 (by omega), List.reverse_nil, List.nil_append,
        Table.ofList_of_nodup h.1]

/-- Items, each with a comma in front of it, are read up to the bracket that closes them. -/
theorem readItems_texts {items : List Json} (h : ItemsWellWritten items) {fuel : Nat}
    (hfuel : (separated (itemTexts items)).length < fuel) (read : List Json) (rest : List Char) :
    readItems fuel read (separated (itemTexts items) ++ ']' :: rest) =
      some (.array (read.reverse ++ items), rest) := by
  match items with
  | [] =>
    obtain ⟨fuel, rfl⟩ := Nat.exists_eq_succ_of_ne_zero (Nat.ne_of_gt hfuel)
    rw [List.append_nil]
    exact readItems_bracket read
  | item :: items =>
    simp only [ItemsWellWritten] at h
    obtain ⟨c, cs, hchars, hc⟩ := exists_text_eq_cons h.1
    have hsplit : separated (itemTexts (item :: items)) =
        ',' :: (item.text.toList ++ separated (itemTexts items)) := rfl
    have hpositive := text_length_pos h.1
    rw [hsplit, List.length_cons, List.length_append] at hfuel
    obtain ⟨fuel, rfl⟩ : ∃ n, fuel = n + 3 := ⟨fuel - 3, by omega⟩
    have hitem : readFrom (fuel + 1) (item.text.toList
          ++ (separated (itemTexts items) ++ ']' :: rest)) =
        some (item, separated (itemTexts items) ++ ']' :: rest) :=
      readFrom_text h.1 (by omega) (endsNumber_separated _ (by decide) rest)
    rw [hsplit, List.cons_append, List.append_assoc, readItems_comma]
    rw [hchars, List.cons_append] at hitem ⊢
    rw [readItems_item hc hitem, readItems_texts h.2 (by omega)]
    simp

/-- Members, each with a comma in front of it, are read up to the brace that closes them. -/
theorem readMembers_texts {members : List (String × Json)} (h : MembersWellWritten members)
    {fuel : Nat} (hfuel : (separated (memberTexts members)).length < fuel)
    (read : List (String × Json)) (rest : List Char) :
    readMembers fuel read (separated (memberTexts members) ++ '\x7d' :: rest) =
      some (.object (Table.ofList (read.reverse ++ members)), rest) := by
  match members with
  | [] =>
    obtain ⟨fuel, rfl⟩ := Nat.exists_eq_succ_of_ne_zero (Nat.ne_of_gt hfuel)
    rw [List.append_nil]
    exact readMembers_brace read
  | (key, j) :: members =>
    simp only [MembersWellWritten] at h
    have hsplit : separated (memberTexts ((key, j) :: members)) =
        ',' :: ((Text.quoteJson key).toList ++ ':' :: (j.text.toList
          ++ separated (memberTexts members))) := by
      simp [separated, memberTexts]
    have hpositive := text_length_pos h.1
    rw [hsplit, List.length_cons, List.length_append, List.length_cons, List.length_append] at hfuel
    obtain ⟨fuel, rfl⟩ : ∃ n, fuel = n + 3 := ⟨fuel - 3, by omega⟩
    have hvalue : readFrom (fuel + 1) (j.text.toList
          ++ (separated (memberTexts members) ++ '\x7d' :: rest)) =
        some (j, separated (memberTexts members) ++ '\x7d' :: rest) :=
      readFrom_text h.1 (by omega) (endsNumber_separated _ (by decide) rest)
    rw [hsplit, List.cons_append, List.append_assoc, readMembers_comma, List.cons_append,
      List.append_assoc, readMembers_member hvalue, readMembers_texts h.2 (by omega)]
    simp

end

/-- A document is read back. -/
theorem read?_text {j : Json} (h : j.IsWellWritten) : read? j.text = some j := by
  have hread : readFrom (j.text.toList.length + 1) (j.text.toList ++ []) = some (j, []) :=
    readFrom_text h (Nat.le_succ _) (by simp [EndsNumber])
  rw [List.append_nil] at hread
  rw [read?, hread]
  rfl

/-- Different documents have different texts. -/
theorem text_inj {j k : Json} (hj : j.IsWellWritten) (hk : k.IsWellWritten)
    (h : j.text = k.text) : j = k := by
  have hread := read?_text hj
  rw [h, read?_text hk] at hread
  exact (Option.some.inj hread).symm

end Json

end Groundplan
