import Groundplan.Text.Blank

/-!
# Searching in texts

Separators and replaced texts are found from the left, and occurrences do not overlap.

## Main definitions

- `Text.cut?`: the characters before and after the first occurrence of a text
- `Text.splitOn`: the pieces between the occurrences of a separator
- `Text.replace`: a text with every occurrence of another replaced
-/

namespace Groundplan.Text

/-- The characters that follow `lead` at the front of `cs`, if `cs` starts with it. -/
def after? : List Char → List Char → Option (List Char)
  | [], cs => some cs
  | _ :: _, [] => none
  | l :: lead, c :: cs => if l = c then after? lead cs else none

/-- The characters before the first occurrence of `sep` and those behind it. -/
def cut? (sep : List Char) : List Char → Option (List Char × List Char)
  | [] => if sep.isEmpty then some ([], []) else none
  | c :: cs =>
    match after? sep (c :: cs) with
    | some rest => some ([], rest)
    | none => (cut? sep cs).map fun (before, rest) => (c :: before, rest)

/-- What lies behind the first occurrence of a separator that is not empty is shorter. -/
private theorem length_lt_of_after? {lead cs rest : List Char} (nonempty : lead ≠ [])
    (found : after? lead cs = some rest) : rest.length < cs.length := by
  induction lead generalizing cs rest with
  | nil => exact absurd rfl nonempty
  | cons l lead ih =>
    cases cs with
    | nil => simp [after?] at found
    | cons c cs =>
      by_cases same : l = c
      · simp only [after?, same, ite_true] at found
        cases lead with
        | nil => simp [after?] at found; simp [found]
        | cons m more =>
          have := ih (by simp) found
          simp only [List.length_cons]
          omega
      · simp [after?, same] at found

/-- The rest after a cut at a separator that is not empty is shorter than the whole. -/
theorem length_lt_of_cut? {sep cs before rest : List Char} (nonempty : sep ≠ [])
    (found : cut? sep cs = some (before, rest)) : rest.length < cs.length := by
  induction cs generalizing before with
  | nil => simp [cut?, List.isEmpty_iff, nonempty] at found
  | cons c cs ih =>
    unfold cut? at found
    split at found
    · next r h =>
      simp only [Option.some.injEq, Prod.mk.injEq] at found
      rw [← found.2]
      exact length_lt_of_after? nonempty h
    · simp only [Option.map_eq_some_iff, Prod.exists, Prod.mk.injEq] at found
      obtain ⟨b, r, h, _, rfl⟩ := found
      have := ih h
      simp only [List.length_cons]
      omega

/-- The pieces between the occurrences of a separator that is not empty. -/
def pieces (sep : List Char) (nonempty : sep ≠ []) (cs : List Char) : List (List Char) :=
  match _found : cut? sep cs with
  | none => [cs]
  | some (before, rest) => before :: pieces sep nonempty rest
termination_by cs.length
decreasing_by exact length_lt_of_cut? nonempty _found

/-- The pieces of a text between the occurrences of a separator; the empty separator gives the
single characters. -/
def splitOn (sep s : String) : List String :=
  if h : sep.toList = [] then s.toList.map String.singleton
  else (pieces sep.toList h s.toList).map String.ofList

/-- Texts joined by a separator. -/
def join (sep : String) (parts : List String) : String :=
  sep.intercalate parts

/-- A text with every occurrence of `search` replaced.  The empty text occurs before every
character and at the end. -/
def replace (s search replacement : String) : String :=
  if h : search.toList = [] then
    replacement ++ String.join (s.toList.map fun c => String.singleton c ++ replacement)
  else
    join replacement ((pieces search.toList h s.toList).map String.ofList)

end Groundplan.Text
