import Groundplan.Constraint.Written
import Groundplan.Proofs.Outcome
import Groundplan.Proofs.Text.Characters

/-!
# The Written Form of a Type Is Read Back

Reading and writing of type constraints are inverse on the constraints whose attributes are named by
words.  Only such constraints are read, so reading the name of what has been read gives the same
again.  A text that is refused is refused for a reason that can be seen in it.

## Main Definitions

- `Constraint.IsWord`, `Constraint.IsWritable`: words, and constraints with words for names
- `Constraint.Malformed.Describes`: what a reason says of a text
- `Constraint.Explains`: what a reader yields, and why it fails

## Main Statements

- `Constraint.readConstraint_name`: a written form is read up to its end
- `Constraint.explains_readConstraint`: what is read can be written, and what is not has a flaw
- `Constraint.read_name`: reading undoes writing
-/

namespace Groundplan

namespace Constraint

variable {total : Nat} {cs rest : List Char}

/-! ## Constraints that can be written -/

/-- Attributes are named by words. -/
def IsWord (word : String) : Prop :=
  word.toList ≠ [] ∧ ∀ c ∈ word.toList, Text.isWordChar c = true

mutual

/-- All attributes inside a constraint are named by words. -/
def IsWritable : Constraint → Prop
  | .string | .number | .bool | .any => True
  | .list element | .set element | .map element => IsWritable element
  | .object attributes => AttributesWritable attributes

/-- All attributes, and those inside their constraints, are named by words. -/
def AttributesWritable : List (String × Constraint) → Prop
  | [] => True
  | (title, constraint) :: attributes =>
    IsWord title ∧ IsWritable constraint ∧ AttributesWritable attributes

end

/-! ## Tokens -/

/-- A word ends where characters that stand in no word follow. -/
def EndsWord (rest : List Char) : Prop :=
  ∀ c ∈ rest.head?, Text.isWordChar c = false

/-- The characters that stand between words, other than blanks. -/
def separators : List Char :=
  ['(', ')', '\x7b', '\x7d', '=', ',']

theorem isWordChar_separator : ∀ c ∈ ' ' :: separators, Text.isWordChar c = false := by
  have hall : (' ' :: separators).all (fun c => !Text.isWordChar c) = true := by
    rw [Text.isWordChar_eq]
    decide +kernel
  intro c hc
  simpa using List.all_eq_true.mp hall c hc

theorem endsWord_separator {c : Char} (hc : c ∈ ' ' :: separators) : EndsWord (c :: rest) := by
  intro c' hc'
  cases hc'
  exact isWordChar_separator c hc

/-- The words that name types. -/
def typeWords : List String :=
  ["string", "number", "bool", "any", "list", "set", "map", "object"]

theorem isWord_iff {word : String} :
    IsWord word ↔ (!word.toList.isEmpty && word.toList.all Text.isWordChar) = true := by
  rw [Bool.and_eq_true, Bool.not_eq_true', List.isEmpty_eq_false_iff, List.all_eq_true, IsWord]

theorem isWord_of_mem_typeWords : ∀ word ∈ typeWords, IsWord word := by
  have hall : typeWords.all
      (fun word => !word.toList.isEmpty && word.toList.all Text.isWordChar) = true := by
    rw [Text.isWordChar_eq]
    decide +kernel
  exact fun word hword => isWord_iff.mpr (List.all_eq_true.mp hall word hword)

theorem skipBlanks_cons {c : Char} (h : Text.isBlank c = false) :
    skipBlanks (c :: cs) = c :: cs := by
  rw [skipBlanks, List.dropWhile_cons_of_neg (by simp [h])]

theorem skipBlanks_space : skipBlanks (' ' :: cs) = skipBlanks cs := by
  rw [skipBlanks, List.dropWhile_cons_of_pos (by decide)]
  rfl

/-- No blank is in front of a word. -/
theorem IsWord.skipBlanks_append {word : String} (h : IsWord word) (rest : List Char) :
    skipBlanks (word.toList ++ rest) = word.toList ++ rest := by
  obtain ⟨hne, hall⟩ := h
  cases hchars : word.toList with
  | nil => exact absurd hchars hne
  | cons c chars =>
    refine skipBlanks_cons (Text.isBlank_of_isWordChar (hall c ?_))
    rw [hchars]
    exact List.mem_cons_self

/-- The result `a` is read, and `rest` is left behind. -/
def Reads {α : Type} (x : Except Malformed (α × Behind cs)) (a : α) (rest : List Char) : Prop :=
  ∃ hrest : rest.length < cs.length, x = .ok (a, ⟨rest, hrest⟩)

theorem readWord_of_skipBlanks {word : String} (hword : IsWord word) (hends : EndsWord rest)
    (h : skipBlanks cs = word.toList ++ rest) :
    Reads (readWord total cs) word rest := by
  have htake : (skipBlanks cs).takeWhile Text.isWordChar = word.toList := by
    rw [h, Text.takeWhile_append_of_stop hword.2 hends]
  have hdrop : (skipBlanks cs).dropWhile Text.isWordChar = rest := by
    rw [h, Text.dropWhile_append_of_stop hword.2 hends]
  have hne : (skipBlanks cs).takeWhile Text.isWordChar ≠ [] := by
    rw [htake]
    exact hword.1
  subst hdrop
  refine ⟨length_lt_of_word hne, (dif_pos hne).trans ?_⟩
  simp only [htake, String.ofList_toList]

theorem expect_of_skipBlanks {c : Char} (h : skipBlanks cs = c :: rest) :
    ∃ hrest : rest.length < cs.length, expect total c cs = .ok ⟨rest, hrest⟩ := by
  refine ⟨length_lt_of_skipBlanks h, ?_⟩
  unfold expect
  split
  · next hnone =>
    rw [hnone] at h
    cases h
  · next c' rest' hsome =>
    rw [hsome] at h
    cases h
    exact if_pos rfl

/-- A separator is read where it stands. -/
theorem expect_separator {c : Char} (hc : c ∈ separators) :
    ∃ hrest : rest.length < (c :: rest).length, expect total c (c :: rest) = .ok ⟨rest, hrest⟩ := by
  have hall : separators.all (fun c => !Text.isBlank c) = true := by decide
  exact expect_of_skipBlanks (skipBlanks_cons (by simpa using List.all_eq_true.mp hall c hc))

theorem skipComma_comma : skipComma (',' :: rest) = rest := by
  rw [skipComma, skipBlanks_cons (by decide)]
  rfl

theorem skipComma_brace : skipComma ('\x7d' :: rest) = '\x7d' :: rest := by
  rw [skipComma, skipBlanks_cons (by decide)]
  rfl

/-! ## Written forms -/

theorem name_of_primitive? {word : String} {T : Constraint} (h : primitive? word = some T) :
    T.name = word := by
  unfold primitive? at h
  split_ifs at h with hword hword hword hword
  all_goals
    cases h
    rw [name, beq_iff_eq.mp hword]

theorem toList_name_collection {word : String} {collection : Constraint → Constraint}
    (h : collection? word = some collection) (T : Constraint) :
    (collection T).name.toList = word.toList ++ '(' :: (T.name.toList ++ [')']) := by
  unfold collection? at h
  split_ifs at h with hword hword hword
  all_goals
    cases h
    rw [beq_iff_eq.mp hword]
    simp [name]

/-- The attributes of an object as they are written between its braces. -/
def attributesText (attributes : List (String × Constraint)) : String :=
  ", ".intercalate (attributeNames attributes)

theorem toList_name_object (attributes : List (String × Constraint)) :
    (object attributes).name.toList =
      "object".toList ++
        '(' :: '\x7b' :: ((attributesText attributes).toList ++ ['\x7d', ')']) := by
  simp [name_object, attributesText]

theorem toList_attributesText_singleton (title : String) (T : Constraint) :
    (attributesText [(title, T)]).toList = title.toList ++ ' ' :: '=' :: ' ' :: T.name.toList := by
  simp [attributesText, attributeNames_cons, attributeNames_nil]

theorem toList_attributesText_cons_cons (title : String) (T : Constraint)
    (next : String × Constraint) (attributes : List (String × Constraint)) :
    (attributesText ((title, T) :: next :: attributes)).toList =
      title.toList ++ ' ' :: '=' :: ' ' ::
        (T.name.toList ++ ',' :: ' ' :: (attributesText (next :: attributes)).toList) := by
  simp [attributesText, attributeNames_cons]

/-- A written form begins with a word. -/
theorem exists_toList_name (T : Constraint) :
    ∃ word ∈ typeWords, ∃ tail, T.name.toList = word.toList ++ tail := by
  cases T with
  | string => exact ⟨"string", by decide, [], rfl⟩
  | number => exact ⟨"number", by decide, [], rfl⟩
  | bool => exact ⟨"bool", by decide, [], rfl⟩
  | any => exact ⟨"any", by decide, [], rfl⟩
  | list element => exact ⟨"list", by decide, _, toList_name_collection rfl element⟩
  | set element => exact ⟨"set", by decide, _, toList_name_collection rfl element⟩
  | map element => exact ⟨"map", by decide, _, toList_name_collection rfl element⟩
  | object attributes => exact ⟨"object", by decide, _, toList_name_object attributes⟩

theorem skipBlanks_name (T : Constraint) (rest : List Char) :
    skipBlanks (T.name.toList ++ rest) = T.name.toList ++ rest := by
  obtain ⟨word, hword, tail, htail⟩ := exists_toList_name T
  rw [htail, List.append_assoc]
  exact (isWord_of_mem_typeWords word hword).skipBlanks_append _

/-! ## Written forms are read -/

theorem readConstraint_primitive (word : String) {T : Constraint} (h : primitive? word = some T)
    (hword : word ∈ typeWords) (hends : EndsWord rest)
    (hcs : skipBlanks cs = T.name.toList ++ rest) :
    Reads (readConstraint total cs) T rest := by
  rw [name_of_primitive? h] at hcs
  obtain ⟨hrest, hread⟩ := readWord_of_skipBlanks (isWord_of_mem_typeWords word hword) hends hcs
  exact ⟨hrest, readConstraint_of_primitive? hread h⟩

/-- A collection is read if its elements are. -/
theorem readConstraint_collection (word : String) {collection : Constraint → Constraint}
    {T : Constraint} (h : collection? word = some collection) (hprimitive : primitive? word = none)
    (hword : word ∈ typeWords)
    (helement : ∀ {cs rest : List Char}, EndsWord rest → skipBlanks cs = T.name.toList ++ rest →
      Reads (readConstraint total cs) T rest)
    (hcs : skipBlanks cs = (collection T).name.toList ++ rest) :
    Reads (readConstraint total cs) (collection T) rest := by
  have hcloses : EndsWord (')' :: rest) := endsWord_separator (by decide)
  rw [toList_name_collection h, List.append_assoc, List.cons_append, List.append_assoc,
    List.singleton_append] at hcs
  obtain ⟨hlt₁, hread⟩ :=
    readWord_of_skipBlanks (isWord_of_mem_typeWords word hword) (endsWord_separator (by decide)) hcs
  obtain ⟨hlt₂, hopen⟩ := expect_separator (c := '(') (by decide)
  obtain ⟨hlt₃, hT⟩ := helement hcloses (skipBlanks_name T _)
  obtain ⟨hlt₄, hclose⟩ := expect_separator (c := ')') (by decide)
  refine ⟨Nat.lt_trans hlt₄ (Nat.lt_trans hlt₃ (Nat.lt_trans hlt₂ hlt₁)), ?_⟩
  rw [readConstraint]
  refine bind_eq_ok_iff.mpr ⟨_, hread, ?_⟩
  simp only [h, hprimitive]
  refine bind_eq_ok_iff.mpr ⟨_, hopen, ?_⟩
  refine bind_eq_ok_iff.mpr ⟨_, hT, ?_⟩
  exact bind_eq_ok_iff.mpr ⟨_, hclose, rfl⟩

/-- An object is read if its attributes are. -/
theorem readConstraint_object {attributes : List (String × Constraint)}
    (hattributes : ∀ {cs rest : List Char},
      skipBlanks cs = (attributesText attributes).toList ++ '\x7d' :: rest →
        Reads (readAttributes total cs) attributes rest)
    (hbody : ∀ rest, skipBlanks ((attributesText attributes).toList ++ '\x7d' :: rest) =
      (attributesText attributes).toList ++ '\x7d' :: rest)
    (hcs : skipBlanks cs = (object attributes).name.toList ++ rest) :
    Reads (readConstraint total cs) (object attributes) rest := by
  rw [toList_name_object, List.append_assoc, List.cons_append, List.cons_append,
    List.append_assoc, List.cons_append, List.cons_append, List.nil_append] at hcs
  obtain ⟨hlt₁, hread⟩ :=
    readWord_of_skipBlanks (isWord_of_mem_typeWords "object" (by decide))
      (endsWord_separator (by decide)) hcs
  obtain ⟨hlt₂, hopen⟩ := expect_separator (c := '(') (by decide)
  obtain ⟨hlt₃, hbrace⟩ := expect_separator (c := '\x7b') (by decide)
  obtain ⟨hlt₄, hread'⟩ := hattributes (hbody _)
  obtain ⟨hlt₅, hclose⟩ := expect_separator (c := ')') (by decide)
  refine ⟨Nat.lt_trans hlt₅ (Nat.lt_trans hlt₄ (Nat.lt_trans hlt₃ (Nat.lt_trans hlt₂ hlt₁))), ?_⟩
  rw [readConstraint]
  refine bind_eq_ok_iff.mpr ⟨_, hread, ?_⟩
  refine bind_eq_ok_iff.mpr ⟨_, hopen, ?_⟩
  refine bind_eq_ok_iff.mpr ⟨_, hbrace, ?_⟩
  refine bind_eq_ok_iff.mpr ⟨_, hread', ?_⟩
  exact bind_eq_ok_iff.mpr ⟨_, hclose, rfl⟩

theorem readAttributes_nil (hcs : skipBlanks cs = '\x7d' :: rest) :
    Reads (readAttributes total cs) [] rest :=
  ⟨length_lt_of_skipBlanks hcs, readAttributes_of_brace hcs⟩

/-- One attribute is read, and then the others behind the comma. -/
theorem readAttributes_cons {title : String} {T : Constraint}
    {attributes : List (String × Constraint)} {next : List Char} (htitle : IsWord title)
    (hconstraint : ∀ {cs : List Char}, skipBlanks cs = T.name.toList ++ next →
      Reads (readConstraint total cs) T next)
    (hattributes : Reads (readAttributes total (skipComma next)) attributes rest)
    (hcs : skipBlanks cs = title.toList ++ ' ' :: '=' :: ' ' :: (T.name.toList ++ next)) :
    Reads (readAttributes total cs) ((title, T) :: attributes) rest := by
  -- A title begins with no brace, so it is not taken for the end.
  have hnot : ∀ tail, skipBlanks cs ≠ '\x7d' :: tail := by
    intro tail htail
    obtain ⟨c, chars, hchars⟩ := List.exists_cons_of_ne_nil htitle.1
    rw [hcs, hchars] at htail
    have hc := htitle.2 c (by rw [hchars]; exact List.mem_cons_self)
    rw [(List.cons.inj htail).1, isWordChar_separator _ (by decide)] at hc
    cases hc
  obtain ⟨hlt₁, hread⟩ := readWord_of_skipBlanks htitle (endsWord_separator (by decide)) hcs
  obtain ⟨hlt₂, hequals⟩ := expect_of_skipBlanks (c := '=')
    (skipBlanks_space.trans (skipBlanks_cons (by decide)))
  obtain ⟨hlt₃, hT⟩ := hconstraint (skipBlanks_space.trans (skipBlanks_name T next))
  obtain ⟨hlt₄, hrest⟩ := hattributes
  have hlt : rest.length < next.length := Nat.lt_of_lt_of_le hlt₄ (length_skipComma_le next)
  refine ⟨Nat.lt_trans hlt (Nat.lt_trans hlt₃ (Nat.lt_trans hlt₂ hlt₁)), ?_⟩
  rw [readAttributes]
  split
  · next tail htail => exact absurd htail (hnot tail)
  · refine bind_eq_ok_iff.mpr ⟨_, hread, ?_⟩
    refine bind_eq_ok_iff.mpr ⟨_, hequals, ?_⟩
    refine bind_eq_ok_iff.mpr ⟨_, hT, ?_⟩
    exact bind_eq_ok_iff.mpr ⟨_, hrest, rfl⟩

/-- Nothing is in front of the attributes of a written object. -/
theorem skipBlanks_attributesText {attributes : List (String × Constraint)}
    (h : AttributesWritable attributes) (rest : List Char) :
    skipBlanks ((attributesText attributes).toList ++ '\x7d' :: rest) =
      (attributesText attributes).toList ++ '\x7d' :: rest := by
  match attributes with
  | [] => exact skipBlanks_cons (by decide)
  | [(title, T)] =>
    rw [toList_attributesText_singleton, List.append_assoc]
    exact h.1.skipBlanks_append _
  | (title, T) :: next :: attributes =>
    rw [toList_attributesText_cons_cons, List.append_assoc]
    exact h.1.skipBlanks_append _

-- By recursion on the constraint: what a reader is given needs the written form only behind
-- blanks, since an attribute is read after the space behind its comma.
mutual

/-- A written form is read up to its end. -/
theorem readConstraint_name : ∀ {T : Constraint} {cs rest : List Char}, T.IsWritable →
    EndsWord rest → skipBlanks cs = T.name.toList ++ rest →
    Reads (readConstraint total cs) T rest
  | .string, _, _, _, hends, hcs =>
    readConstraint_primitive "string" rfl (by decide) hends hcs
  | .number, _, _, _, hends, hcs =>
    readConstraint_primitive "number" rfl (by decide) hends hcs
  | .bool, _, _, _, hends, hcs =>
    readConstraint_primitive "bool" rfl (by decide) hends hcs
  | .any, _, _, _, hends, hcs =>
    readConstraint_primitive "any" rfl (by decide) hends hcs
  | .list _, _, _, hT, _, hcs =>
    readConstraint_collection "list" rfl rfl (by decide) (readConstraint_name hT) hcs
  | .set _, _, _, hT, _, hcs =>
    readConstraint_collection "set" rfl rfl (by decide) (readConstraint_name hT) hcs
  | .map _, _, _, hT, _, hcs =>
    readConstraint_collection "map" rfl rfl (by decide) (readConstraint_name hT) hcs
  | .object _, _, _, hT, _, hcs =>
    readConstraint_object (readAttributes_attributesText hT) (skipBlanks_attributesText hT) hcs

/-- Written attributes are read up to the closing brace. -/
theorem readAttributes_attributesText : ∀ {attributes : List (String × Constraint)}
    {cs rest : List Char}, AttributesWritable attributes →
    skipBlanks cs = (attributesText attributes).toList ++ '\x7d' :: rest →
    Reads (readAttributes total cs) attributes rest
  | [], _, _, _, hcs => readAttributes_nil hcs
  | [(title, T)], cs, rest, h, hcs => by
    rw [toList_attributesText_singleton, List.append_assoc] at hcs
    have hends : EndsWord ('\x7d' :: rest) := endsWord_separator (by decide)
    refine readAttributes_cons h.1 (readConstraint_name h.2.1 hends) (readAttributes_nil ?_) hcs
    rw [skipComma_brace, skipBlanks_cons (by decide)]
  | (title, T) :: next :: attributes, cs, rest, h, hcs => by
    rw [toList_attributesText_cons_cons, List.append_assoc, List.cons_append, List.cons_append,
      List.cons_append, List.append_assoc, List.cons_append, List.cons_append] at hcs
    refine readAttributes_cons h.1 (readConstraint_name h.2.1 (endsWord_separator (by decide)))
      (readAttributes_attributesText h.2.2 ?_) hcs
    rw [skipComma_comma, skipBlanks_space, skipBlanks_attributesText h.2.2]

end

/-! ## What is read -/

/-- What stands at the offset of a text is no blank and does not satisfy `p`, or the text ends
there. -/
def Lacks (text : List Char) (offset : Nat) (p : Char → Prop) : Prop :=
  offset ≤ text.length ∧
    ∀ c ∈ (text.drop offset).head?, Text.isBlank c = false ∧ ¬ p c

/-- What a reason says of the text that it is given for. -/
def Malformed.Describes (text : List Char) : Malformed → Prop
  | .trailing rest => rest.toList ≠ [] ∧ rest.toList <:+ text
  | .missing char offset => Lacks text offset (· = char)
  | .missingName offset => Lacks text offset (Text.isWordChar · = true)
  | .unknownType word => IsWord word ∧ word.toList <:+: text ∧ word ∉ typeWords

/-- A reader yields results in `P` and fails for reasons that describe the text. -/
structure Explains {α : Type} (text : List Char) (P : α → Prop) (x : Except Malformed α) :
    Prop where
  result : ∀ a, x = .ok a → P a
  reason : ∀ m, x = .error m → m.Describes text

variable {text : List Char}

namespace Explains

variable {α β : Type} {P : α → Prop} {Q : β → Prop}

theorem ok {a : α} (h : P a) : Explains text P (.ok a) := by
  constructor
  · intro a' ha
    cases ha
    exact h
  · intro m hm
    cases hm

theorem error {m : Malformed} (h : m.Describes text) : Explains text P (.error m) := by
  constructor
  · intro a ha
    cases ha
  · intro m' hm
    cases hm
    exact h

theorem bind {x : Except Malformed α} {f : α → Except Malformed β} (hx : Explains text P x)
    (hnext : ∀ a, P a → Explains text Q (f a)) : Explains text Q (x >>= f) := by
  cases x with
  | ok a => exact hnext a (hx.result a rfl)
  | error m => exact error (hx.reason m rfl)

end Explains

theorem skipBlanks_suffix (cs : List Char) : skipBlanks cs <:+ cs :=
  List.dropWhile_suffix _

theorem skipComma_suffix (cs : List Char) : skipComma cs <:+ cs := by
  have hsuffix := skipBlanks_suffix cs
  unfold skipComma
  split
  · next rest hcomma =>
    rw [hcomma] at hsuffix
    exact (List.suffix_cons _ rest).trans hsuffix
  · exact hsuffix

/-- An offset is counted from the front, while readers know what is left. -/
theorem lacks_of_suffix {p : Char → Prop} (hcs : cs <:+ text)
    (h : ∀ c ∈ (skipBlanks cs).head?, ¬ p c) :
    Lacks text (text.length - (skipBlanks cs).length) p := by
  have hsuffix := (skipBlanks_suffix cs).trans hcs
  refine ⟨Nat.sub_le _ _, ?_⟩
  rw [← List.suffix_iff_eq_drop.mp hsuffix]
  intro c hc
  refine ⟨?_, h c hc⟩
  have hblank := List.head?_dropWhile_not Text.isBlank cs
  rw [show (cs.dropWhile Text.isBlank).head? = some c from hc] at hblank
  exact hblank

theorem explains_expect {char : Char} (hcs : cs <:+ text) :
    Explains text (fun r => r.1 <:+ text) (expect text.length char cs) := by
  have hsuffix := (skipBlanks_suffix cs).trans hcs
  unfold expect
  split
  · next hnone =>
    have hlacks := lacks_of_suffix (p := (· = char)) hcs (by simp [hnone])
    rw [hnone] at hlacks
    exact .error hlacks
  · next c rest hsome =>
    split
    · rw [hsome] at hsuffix
      exact .ok ((List.suffix_cons c rest).trans hsuffix)
    · next hc =>
      have hlacks := lacks_of_suffix (p := (· = char)) hcs (by simpa [hsome] using hc)
      rw [hsome] at hlacks
      exact .error hlacks

theorem explains_readWord (hcs : cs <:+ text) :
    Explains text (fun r => IsWord r.1 ∧ r.1.toList <:+: text ∧ r.2.1 <:+ text)
      (readWord text.length cs) := by
  have hsuffix := (skipBlanks_suffix cs).trans hcs
  unfold readWord
  dsimp only
  split
  · next hne =>
    refine .ok ⟨⟨by rwa [String.toList_ofList], fun c hc => ?_⟩, ?_, ?_⟩
    · rw [String.toList_ofList] at hc
      exact List.all_eq_true.mp List.all_takeWhile c hc
    · rw [String.toList_ofList]
      exact (List.takeWhile_prefix _).isInfix.trans hsuffix.isInfix
    · exact (List.dropWhile_suffix _).trans hsuffix
  · next hempty =>
    -- A run that is empty ends at once, so the first character behind blanks stands in no word.
    have hnil := not_not.mp hempty
    have hsplit := List.takeWhile_append_dropWhile (p := Text.isWordChar) (l := skipBlanks cs)
    rw [hnil, List.nil_append] at hsplit
    rw [hsplit]
    refine .error (lacks_of_suffix hcs fun c hc hword => ?_)
    obtain ⟨tail, htail⟩ := List.head?_eq_some_iff.mp hc
    rw [htail, List.takeWhile_cons_of_pos hword] at hnil
    cases hnil

theorem isWritable_of_primitive? {word : String} {T : Constraint} (h : primitive? word = some T) :
    T.IsWritable := by
  unfold primitive? at h
  split_ifs at h
  all_goals
    cases h
    trivial

theorem isWritable_of_collection? {word : String} {collection : Constraint → Constraint}
    (h : collection? word = some collection) {T : Constraint} (hT : T.IsWritable) :
    (collection T).IsWritable := by
  unfold collection? at h
  split_ifs at h
  all_goals
    cases h
    exact hT

theorem not_mem_typeWords {word : String} (hprimitive : primitive? word = none)
    (hcollection : collection? word = none) (hobject : ¬ (word == "object") = true) :
    word ∉ typeWords := by
  unfold primitive? at hprimitive
  unfold collection? at hcollection
  split_ifs at hprimitive hcollection
  simp_all [typeWords]

-- Readers are given a suffix of the text and leave one behind, which is what makes the offsets in
-- their reasons true of the whole text.
mutual

/-- What is read as a constraint can be written, and what is not has a flaw that can be seen. -/
theorem explains_readConstraint (cs : List Char) (hcs : cs <:+ text) :
    Explains text (fun r => r.1.IsWritable ∧ r.2.1 <:+ text) (readConstraint text.length cs) := by
  rw [readConstraint]
  refine (explains_readWord hcs).bind fun ⟨word, inner, hinner⟩ ⟨hword, hinfix, hinnerSuffix⟩ => ?_
  dsimp only
  split
  · next T hprimitive => exact .ok ⟨isWritable_of_primitive? hprimitive, hinnerSuffix⟩
  next hprimitive =>
  split
  · next collection hcollection =>
    refine (explains_expect hinnerSuffix).bind
      fun ⟨opened, (hopened : opened.length < inner.length)⟩ hopenedSuffix => ?_
    refine (explains_readConstraint opened hopenedSuffix).bind
      fun ⟨element, closing, hclosing⟩ ⟨helement, hclosingSuffix⟩ => ?_
    refine (explains_expect hclosingSuffix).bind fun ⟨rest, hrest⟩ hrestSuffix => ?_
    exact .ok ⟨isWritable_of_collection? hcollection helement, hrestSuffix⟩
  next hcollection =>
  split
  · refine (explains_expect hinnerSuffix).bind
      fun ⟨opened, (hopened : opened.length < inner.length)⟩ hopenedSuffix => ?_
    refine (explains_expect hopenedSuffix).bind
      fun ⟨body, (hbody : body.length < opened.length)⟩ hbodySuffix => ?_
    refine (explains_readAttributes body hbodySuffix).bind
      fun ⟨attributes, closing, hclosing⟩ ⟨hattributes, hclosingSuffix⟩ => ?_
    refine (explains_expect hclosingSuffix).bind fun ⟨rest, hrest⟩ hrestSuffix => ?_
    exact .ok ⟨hattributes, hrestSuffix⟩
  · next hobject =>
    exact .error ⟨hword, hinfix, not_mem_typeWords hprimitive hcollection hobject⟩
termination_by cs.length

theorem explains_readAttributes (cs : List Char) (hcs : cs <:+ text) :
    Explains text (fun r => AttributesWritable r.1 ∧ r.2.1 <:+ text)
      (readAttributes text.length cs) := by
  rw [readAttributes]
  split
  · next rest hbrace =>
    have hsuffix := (skipBlanks_suffix cs).trans hcs
    rw [hbrace] at hsuffix
    exact .ok ⟨trivial, (List.suffix_cons _ rest).trans hsuffix⟩
  · refine (explains_readWord hcs).bind fun ⟨title, named, hnamed⟩ ⟨htitle, _, hnamedSuffix⟩ => ?_
    refine (explains_expect hnamedSuffix).bind
      fun ⟨value, (hvalue : value.length < named.length)⟩ hvalueSuffix => ?_
    refine (explains_readConstraint value hvalueSuffix).bind
      fun ⟨T, next, (hnext : next.length < value.length)⟩ ⟨hT, hnextSuffix⟩ => ?_
    have hcomma := length_skipComma_le next
    refine (explains_readAttributes (skipComma next) ?_).bind
      fun ⟨attributes, rest, hrest⟩ ⟨hattributes, hrestSuffix⟩ => ?_
    · exact (skipComma_suffix next).trans hnextSuffix
    · exact .ok ⟨⟨htitle, hT, hattributes⟩, hrestSuffix⟩
termination_by cs.length

end

theorem explains_read (text : String) : Explains text.toList IsWritable (read text) := by
  refine (explains_readConstraint text.toList (List.suffix_refl _)).bind
    fun ⟨T, rest, hrest⟩ ⟨hT, hsuffix⟩ => ?_
  dsimp only
  split
  · exact .ok hT
  · next hne =>
    refine .error ⟨?_, ?_⟩
    · rw [String.toList_ofList]
      exact hne
    · rw [String.toList_ofList]
      exact (skipBlanks_suffix rest).trans hsuffix

theorem read_of_isWritable {T : Constraint} (hT : T.IsWritable) : read T.name = .ok T := by
  have hends : EndsWord [] := fun c hc => by cases hc
  have hcs : skipBlanks T.name.toList = T.name.toList ++ [] := by
    simpa using skipBlanks_name T []
  obtain ⟨_, hread⟩ : Reads (readConstraint T.name.toList.length T.name.toList) T [] :=
    readConstraint_name hT hends hcs
  exact bind_eq_ok_iff.mpr ⟨_, hread, rfl⟩

/-- Reading undoes writing of the constraints whose attributes are named by words.  Only such
constraints are read, so the name of what has been read is read as the same again; and every text
is either read or refused for a reason that describes it. -/
theorem read_name :
    (∀ T : Constraint, T.IsWritable → read T.name = .ok T) ∧
      (∀ text T, read text = .ok T → T.IsWritable ∧ read T.name = .ok T) ∧
      ∀ text, (∃ T, read text = .ok T) ∨ ∃ m, read text = .error m ∧ m.Describes text.toList := by
  refine ⟨fun T => read_of_isWritable, fun text T h => ?_, fun text => ?_⟩
  · have hT := (explains_read text).result T h
    exact ⟨hT, read_of_isWritable hT⟩
  · cases h : read text with
    | ok T => exact .inl ⟨T, rfl⟩
    | error m => exact .inr ⟨m, rfl, (explains_read text).reason m h⟩

/-- Attributes may have the names of types, and the same name twice. -/
theorem read_name_object :
    read "object(\x7blist = any, list = set(bool), _1 = object(\x7b\x7d)\x7d)" =
        .ok (object [("list", .any), ("list", .set .bool), ("_1", .object [])]) := by
  have hwritable :
      IsWritable (object [("list", .any), ("list", .set .bool), ("_1", .object [])]) := by
    have hlist := isWord_of_mem_typeWords "list" (by decide)
    have hone : IsWord "_1" := by
      rw [isWord_iff, Text.isWordChar_eq]
      decide +kernel
    exact ⟨hlist, trivial, hlist, trivial, hone, trivial, trivial⟩
  exact (read_name.2.1 _ _ (read_name.1 _ hwritable)).2

end Constraint

end Groundplan
