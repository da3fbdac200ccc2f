import Groundplan.Text.Search
import Mathlib.Data.List.Infix

/-!
# Texts Are Taken Apart Where They Were Joined

A text is cut at the first occurrence of a separator, however the separator overlaps itself.  So its
pieces lose nothing, and no separator is left in any of them.  The other way round, a separator that
is a single character does not overlap itself, so parts without that character come back from a text
that joins them.

## Main Statements

- `Text.cut?_eq_some_iff`: a text is cut at the first occurrence
- `Text.join_splitOn`: a text joins its pieces
- `Text.not_infix_of_mem_splitOn`: no piece contains the separator
- `Text.splitOn_intercalate`: the pieces of joined parts are the parts
- `Text.splitOn_of_not_mem`: a text without the separator is in one piece
-/

namespace Groundplan.Text

/-! ## The first occurrence -/

section Cut

variable {sep lead cs before rest : List Char}

theorem after?_eq_dropPrefix? (lead cs : List Char) : after? lead cs = cs.dropPrefix? lead := by
  induction lead generalizing cs with
  | nil => rw [List.dropPrefix?_nil, after?]
  | cons l lead ih =>
    cases cs with
    | nil => rfl
    | cons c cs => simp only [after?, List.dropPrefix?, ih, beq_iff_eq, @eq_comm _ l c]

theorem after?_eq_some_iff : after? lead cs = some rest ↔ cs = lead ++ rest := by
  simp [after?_eq_dropPrefix?, List.dropPrefix?_eq_some_iff]

theorem after?_eq_none_iff : after? lead cs = none ↔ ¬ lead <+: cs := by
  simp only [List.prefix_iff_exists_eq_append, ← after?_eq_some_iff,
    Option.eq_none_iff_forall_ne_some, not_exists, ne_eq]

/-- The search for an infix keeps the characters that it has passed in reverse order. -/
theorem dropInfix?_go_eq (sep cs passed : List Char) :
    List.dropInfix?.go sep cs passed =
      (cut? sep cs).map fun (before, rest) => (passed.reverse ++ before, rest) := by
  induction cs generalizing passed with
  | nil => cases sep <;> simp [List.dropInfix?.go, cut?]
  | cons c cs ih =>
    simp only [List.dropInfix?.go, cut?, after?_eq_dropPrefix?]
    cases (c :: cs).dropPrefix? sep with
    | some rest => simp
    | none => simp [ih, Function.comp_def]

theorem cut?_eq_dropInfix? (sep cs : List Char) : cut? sep cs = cs.dropInfix? sep := by
  simp [List.dropInfix?, dropInfix?_go_eq]

/-- A text is cut at the occurrence with the fewest characters before it. -/
theorem cut?_eq_some_iff : cut? sep cs = some (before, rest) ↔
    cs = before ++ sep ++ rest ∧ ∀ b r, cs = b ++ sep ++ r → before.length ≤ b.length := by
  rw [cut?_eq_dropInfix?, List.dropInfix?_eq_some_iff]
  simp only [beq_iff_eq, exists_eq_right, ge_iff_le]
  exact and_congr_right fun _ =>
    ⟨fun h b r hcs => h b sep r hcs rfl, fun h b s r hcs hs => h b r (hs ▸ hcs)⟩

theorem cut?_eq_none_iff : cut? sep cs = none ↔ ¬ sep <:+: cs := by
  induction cs with
  | nil => simp [cut?]
  | cons c cs ih =>
    rw [List.infix_cons_iff, not_or, ← ih, ← after?_eq_none_iff, cut?]
    cases after? sep (c :: cs) <;> simp

/-- What lies before the first occurrence has none in itself. -/
theorem not_infix_of_cut? (nonempty : sep ≠ []) (h : cut? sep cs = some (before, rest)) :
    ¬ sep <:+: before := by
  obtain ⟨hcs, hfirst⟩ := cut?_eq_some_iff.mp h
  rintro ⟨b, r, rfl⟩
  have hle := hfirst b (r ++ sep ++ rest) (by simp [hcs])
  have hlt := List.length_pos_iff.mpr nonempty
  simp only [List.length_append] at hle
  omega

end Cut

/-! ## Pieces -/

section Pieces

variable {sep cs before rest piece : List Char} (nonempty : sep ≠ [])

theorem pieces_of_cut?_eq_none (h : cut? sep cs = none) : pieces sep nonempty cs = [cs] := by
  rw [pieces]
  split
  · rfl
  · next hcut => simp [h] at hcut

theorem pieces_of_cut?_eq_some (h : cut? sep cs = some (before, rest)) :
    pieces sep nonempty cs = before :: pieces sep nonempty rest := by
  rw [pieces]
  split
  · next hcut => simp [h] at hcut
  · next hcut =>
    rw [h, Option.some.injEq, Prod.mk.injEq] at hcut
    rw [← hcut.1, ← hcut.2]

theorem pieces_ne_nil (cs : List Char) : pieces sep nonempty cs ≠ [] := by
  rw [pieces]
  split <;> exact List.cons_ne_nil _ _

/-- Between its pieces, a text has nothing but separators. -/
theorem intercalate_pieces (cs : List Char) : sep.intercalate (pieces sep nonempty cs) = cs := by
  fun_induction pieces sep nonempty cs with
  | case1 cs _ => rw [List.intercalate_singleton]
  | case2 cs before rest hcut ih =>
    rw [List.intercalate_cons_of_ne_nil (pieces_ne_nil nonempty rest), ih]
    exact (cut?_eq_some_iff.mp hcut).1.symm

theorem not_infix_of_mem_pieces (h : piece ∈ pieces sep nonempty cs) : ¬ sep <:+: piece := by
  fun_induction pieces sep nonempty cs with
  | case1 cs hcut =>
    obtain rfl := List.mem_singleton.mp h
    exact cut?_eq_none_iff.mp hcut
  | case2 cs before rest hcut ih =>
    rcases List.mem_cons.mp h with rfl | hrest
    · exact not_infix_of_cut? nonempty hcut
    · exact ih hrest

end Pieces

/-! ## Texts and their pieces -/

/-- Texts joined by nothing are written one behind the other. -/
theorem join_cons (text : String) (texts : List String) :
    join "" (text :: texts) = text ++ join "" texts := by
  unfold join
  cases texts with
  | nil => simp
  | cons other rest => rw [String.intercalate_cons_cons, String.append_empty]

theorem join_characters (cs : List Char) :
    join "" (cs.map String.singleton) = String.ofList cs := by
  induction cs with
  | nil => rfl
  | cons c cs ih =>
    rw [List.map_cons, join_cons, ih]
    simp

/-- A text joins its pieces. -/
theorem join_splitOn (separator s : String) : join separator (splitOn separator s) = s := by
  unfold splitOn
  split
  · next hempty =>
    rw [String.toList_eq_nil_iff.mp hempty, join_characters, String.ofList_toList]
  · next hnonempty =>
    rw [← String.toList_inj, join, String.toList_intercalate, List.map_map]
    simp [Function.comp_def, intercalate_pieces]

theorem not_infix_of_mem_splitOn {separator s part : String} (nonempty : separator ≠ "")
    (h : part ∈ splitOn separator s) : ¬ separator.toList <:+: part.toList := by
  rw [splitOn, dif_neg (mt String.toList_eq_nil_iff.mp nonempty)] at h
  obtain ⟨piece, hpiece, rfl⟩ := List.mem_map.mp h
  rw [String.toList_ofList]
  exact not_infix_of_mem_pieces _ hpiece

/-! ## Separators of one character -/

section Character

variable {sep : Char} {cs before rest : List Char}

theorem cut?_of_not_mem (h : sep ∉ cs) : cut? [sep] cs = none :=
  cut?_eq_none_iff.mpr (mt (List.singleton_infix_iff sep cs).mp h)

/-- A text is cut at the first separator. -/
theorem cut?_append (h : sep ∉ before) :
    cut? [sep] (before ++ sep :: rest) = some (before, rest) := by
  induction before with
  | nil => simp only [List.nil_append, cut?, after?, if_true]
  | cons c before ih =>
    obtain ⟨hne, hbefore⟩ := not_or.mp (mt List.mem_cons.mpr h)
    simp only [List.cons_append, cut?, after?, hne, if_false, ih hbefore, Option.map_some]

theorem pieces_intercalate (hsep : [sep] ≠ []) {parts : List (List Char)} (hparts : parts ≠ [])
    (h : ∀ part ∈ parts, sep ∉ part) : pieces [sep] hsep ([sep].intercalate parts) = parts := by
  induction parts with
  | nil => exact absurd rfl hparts
  | cons part parts ih =>
    obtain ⟨hpart, hrest⟩ := List.forall_mem_cons.mp h
    cases parts with
    | nil =>
      rw [List.intercalate_singleton, pieces_of_cut?_eq_none hsep (cut?_of_not_mem hpart)]
    | cons next parts =>
      rw [List.intercalate_cons_cons, List.append_assoc, List.singleton_append,
        pieces_of_cut?_eq_some hsep (cut?_append hpart), ih (List.cons_ne_nil _ _) hrest]

variable {separator : String}

/-- The pieces of a text that joins some parts are these parts. -/
theorem splitOn_intercalate (hseparator : separator.toList = [sep]) {parts : List String}
    (hparts : parts ≠ []) (h : ∀ part ∈ parts, sep ∉ part.toList) :
    splitOn separator (separator.intercalate parts) = parts := by
  have hpieces : ∀ hne, pieces separator.toList hne (separator.intercalate parts).toList =
      parts.map String.toList := by
    rw [hseparator, String.toList_intercalate, hseparator]
    intro hne
    exact pieces_intercalate hne (by simpa using hparts) (by simpa using h)
  rw [splitOn, dif_neg (by simp [hseparator]), hpieces, List.map_map]
  simp

theorem splitOn_of_not_mem (hseparator : separator.toList = [sep]) {s : String}
    (h : sep ∉ s.toList) : splitOn separator s = [s] := by
  simpa using splitOn_intercalate hseparator (List.cons_ne_nil s []) (by simpa using h)

/-- A character of a text that joins some parts is in the separator or in a part. -/
theorem mem_intercalate {c : Char} {parts : List String}
    (h : c ∈ (separator.intercalate parts).toList) :
    c ∈ separator.toList ∨ ∃ part ∈ parts, c ∈ part.toList := by
  induction parts with
  | nil => simp at h
  | cons part parts ih =>
    by_cases hparts : parts = []
    · rw [hparts, String.intercalate_singleton] at h
      exact .inr ⟨part, List.mem_cons_self, h⟩
    · simp only [String.intercalate_cons_of_ne_nil hparts, String.toList_append, List.mem_append]
        at h
      rcases h with (hpart | hseparator) | hrest
      · exact .inr ⟨part, List.mem_cons_self, hpart⟩
      · exact .inl hseparator
      · exact (ih hrest).imp_right fun ⟨p, hp, hc⟩ => ⟨p, List.mem_cons_of_mem _ hp, hc⟩

end Character

end Groundplan.Text
