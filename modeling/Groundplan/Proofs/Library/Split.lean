import Groundplan.Proofs.Library.Call
import Groundplan.Proofs.Text.Search

/-!
# Texts Split and Joined

A text that is split at a separator and joined with it again is the same text.  This holds for every
separator: one that overlaps itself is found from the left, one that stands at an end of the text
leaves an empty piece there, and the empty one gives the single characters.

## Main Statements

- `Library.call_split`, `Library.call_join_texts`: calls of the two functions
- `Library.join_split`: what is split may be joined
-/

namespace Groundplan.Library

variable {span : Option Span}

/-! ## Lists of texts -/

theorem texts_map_string (function : String) (position : Int) (parts : List String) :
    texts function position (parts.map .string) = .ok parts := by
  induction parts with
  | nil => rfl
  | cons part parts ih =>
    rw [List.map_cons, texts, ih]
    rfl

theorem anyContainsUnknown_map_string (parts : List String) :
    Value.anyContainsUnknown (parts.map .string) = false := by
  induction parts with
  | nil => rfl
  | cons part parts ih => exact ih

theorem textsOfAll_map_string (position : Int) (parts : List String) :
    textsOfAll position [.list (parts.map .string)] = .ok parts := by
  simp only [textsOfAll, Value.items?, Option.getD_some, texts_map_string]
  exact congrArg Except.ok (List.append_nil parts)

/-! ## Calls -/

theorem call_split (separator s : String) :
    standard.call "split" [.string separator, .string s] span =
      .ok (.list ((Text.splitOn separator s).map .string)) :=
  (call_eq_ok_iff "split" [_, _] rfl rfl rfl).mpr rfl

theorem call_join_texts (separator : String) (parts : List String) :
    standard.call "join" [.string separator, .list (parts.map .string)] span =
      .ok (.string (Text.join separator parts)) := by
  have hknown :
      Value.anyContainsUnknown [.string separator, .list (parts.map .string)] = false := by
    simp [Value.anyContainsUnknown, Value.containsUnknown, anyContainsUnknown_map_string]
  refine (call_eq_ok_iff "join" [_, _] rfl rfl hknown).mpr ?_
  show (do
    return Value.string (Text.join separator (← textsOfAll 2 [.list (parts.map .string)]))) = _
  rw [textsOfAll_map_string]
  rfl

/-- Joining the pieces of a text with the separator at which it was split gives the text back, and
no piece contains the separator unless it is empty. -/
theorem join_split (separator s : String) (span : Option Span) :
    ∃ parts : List String,
      standard.call "split" [.string separator, .string s] span = .ok (.list (parts.map .string))
        ∧ standard.call "join" [.string separator, .list (parts.map .string)] span = .ok (.string s)
        ∧ (separator ≠ "" → ∀ part ∈ parts, ¬ separator.toList <:+: part.toList) := by
  refine ⟨Text.splitOn separator s, call_split separator s, ?joined, fun nonempty part hpart => ?_⟩
  case joined => rw [call_join_texts, Text.join_splitOn]
  exact Text.not_infix_of_mem_splitOn nonempty hpart

/-- A separator that overlaps itself, at both ends of the text and between. -/
theorem join_split_overlapping :
    let parts := ["", "ab", "", "a"]
    "aa" ≠ ""
      ∧ standard.call "split" [.string "aa", .string "aaabaaaaa"] none =
        .ok (.list (parts.map .string))
      ∧ standard.call "join" [.string "aa", .list (parts.map .string)] none =
        .ok (.string "aaabaaaaa")
      ∧ ∀ part ∈ parts, ¬ "aa".toList <:+: part.toList := by
  intro parts
  have hnonempty : "aa" ≠ "" := by decide
  have hparts : Text.splitOn "aa" "aaabaaaaa" = parts := by
    simp [Text.splitOn, Text.pieces, Text.cut?, Text.after?, parts]
  obtain ⟨parts', hsplit, hjoin, hfree⟩ := join_split "aa" "aaabaaaaa" none
  obtain rfl : parts = parts' := by
    rw [call_split, hparts] at hsplit
    have hvalues := Value.list.inj (Except.ok.inj hsplit)
    exact List.map_injective_iff.mpr (fun _ _ => Value.string.inj) hvalues
  exact ⟨hnonempty, hsplit, hjoin, hfree hnonempty⟩

end Groundplan.Library
