/-!
# Sorting

Stable sorting of lists by a comparison, by inserting one element after another.

## Main definitions

- `Sorting.sortBy`: the sorted list
- `Sorting.sortTexts`: texts in the order of their characters' code points

## Main statements

- `Sorting.sortBy_perm`: sorting neither loses nor adds an element
- `Sorting.sortBy_sorted`: by a total order, the result is ascending
- `Sorting.sortBy_eq_of_perm`: the result does not depend on the order of the elements
-/

namespace Groundplan.Sorting

variable {α : Type}

/-- Insert an element in front of the first element that it does not come after. -/
def insertBy (before : α → α → Bool) (x : α) : List α → List α
  | [] => [x]
  | y :: ys => if before x y then x :: y :: ys else y :: insertBy before x ys

/-- The list in ascending order; elements of which neither is greater keep their order. -/
def sortBy (atMost : α → α → Bool) : List α → List α
  | [] => []
  | x :: xs => insertBy atMost x (sortBy atMost xs)

/-- Texts in ascending order of their characters' code points. -/
def sortTexts (texts : List String) : List String :=
  sortBy (fun a b => decide (a ≤ b)) texts

/-- Entries in ascending order of their keys. -/
def sortKeys (entries : List (String × α)) : List (String × α) :=
  sortBy (fun a b => decide (a.1 ≤ b.1)) entries

/-! ## The same elements -/

/-- Insertion adds the one element. -/
theorem insertBy_perm (before : α → α → Bool) (x : α) (xs : List α) :
    (insertBy before x xs).Perm (x :: xs) := by
  induction xs with
  | nil => exact List.Perm.refl _
  | cons y ys ih =>
    simp only [insertBy]
    split
    · exact List.Perm.refl _
    · exact (ih.cons y).trans (List.Perm.swap x y ys)

/-- Sorting neither loses nor adds an element. -/
theorem sortBy_perm (atMost : α → α → Bool) (xs : List α) : (sortBy atMost xs).Perm xs := by
  induction xs with
  | nil => exact List.Perm.refl _
  | cons x xs ih => exact (insertBy_perm atMost x (sortBy atMost xs)).trans (ih.cons x)

/-- A sorted list has the elements of the list. -/
@[simp]
theorem mem_sortBy {atMost : α → α → Bool} {x : α} {xs : List α} :
    x ∈ sortBy atMost xs ↔ x ∈ xs :=
  (sortBy_perm atMost xs).mem_iff

/-- A sorted list is as long as the list. -/
@[simp]
theorem length_sortBy (atMost : α → α → Bool) (xs : List α) :
    (sortBy atMost xs).length = xs.length :=
  (sortBy_perm atMost xs).length_eq

/-! ## Their order -/

/-- Insertion keeps a list ascending. -/
theorem insertBy_sorted {atMost : α → α → Bool}
    (total : ∀ a b, atMost a b = true ∨ atMost b a = true)
    (transitive : ∀ a b c, atMost a b = true → atMost b c = true → atMost a c = true)
    (x : α) {xs : List α} (sorted : xs.Pairwise (atMost · · = true)) :
    (insertBy atMost x xs).Pairwise (atMost · · = true) := by
  induction xs with
  | nil => simp [insertBy]
  | cons y ys ih =>
    obtain ⟨least, rest⟩ := List.pairwise_cons.mp sorted
    simp only [insertBy]
    split
    · rename_i below
      refine List.pairwise_cons.mpr ⟨?_, sorted⟩
      intro z member
      rcases List.mem_cons.mp member with same | later
      · exact same ▸ below
      · exact transitive x y z below (least z later)
    · rename_i above
      refine List.pairwise_cons.mpr ⟨?_, ih rest⟩
      intro z member
      rcases List.mem_cons.mp ((insertBy_perm atMost x ys).mem_iff.mp member) with same | later
      · exact same ▸ (total x y).resolve_left above
      · exact least z later

/-- By a total order, the result is ascending. -/
theorem sortBy_sorted {atMost : α → α → Bool}
    (total : ∀ a b, atMost a b = true ∨ atMost b a = true)
    (transitive : ∀ a b c, atMost a b = true → atMost b c = true → atMost a c = true)
    (xs : List α) : (sortBy atMost xs).Pairwise (atMost · · = true) := by
  induction xs with
  | nil => exact List.Pairwise.nil
  | cons x xs ih => exact insertBy_sorted total transitive x ih

/-- Entries are sorted by their keys. -/
theorem sortKeys_sorted (entries : List (String × α)) :
    (sortKeys entries).Pairwise (·.1 ≤ ·.1) := by
  have sorted : (sortKeys entries).Pairwise fun a b => decide (a.1 ≤ b.1) = true :=
    sortBy_sorted (by simpa using fun a _ b _ => String.le_total a b)
      (by simpa using fun a _ b _ c _ => String.le_trans) entries
  exact sorted.imp of_decide_eq_true

/-- An ascending list is sorted already. -/
theorem sortBy_of_sorted {atMost : α → α → Bool} {xs : List α}
    (sorted : xs.Pairwise (atMost · · = true)) : sortBy atMost xs = xs := by
  induction xs with
  | nil => rfl
  | cons x xs ih =>
    obtain ⟨least, rest⟩ := List.pairwise_cons.mp sorted
    rw [sortBy, ih rest]
    cases xs with
    | nil => rfl
    | cons y ys => simp [insertBy, least y (by simp)]

/-- Sorting by a total order takes lists of the same elements to the same list. -/
theorem sortBy_eq_of_perm {atMost : α → α → Bool}
    (total : ∀ a b, atMost a b = true ∨ atMost b a = true)
    (transitive : ∀ a b c, atMost a b = true → atMost b c = true → atMost a c = true)
    {xs ys : List α} (same : xs.Perm ys)
    (antisymmetric : ∀ a ∈ xs, ∀ b ∈ xs, atMost a b = true → atMost b a = true → a = b) :
    sortBy atMost xs = sortBy atMost ys := by
  have permuted : (sortBy atMost xs).Perm (sortBy atMost ys) :=
    ((sortBy_perm atMost xs).trans same).trans (sortBy_perm atMost ys).symm
  refine permuted.eq_of_pairwise ?_ (sortBy_sorted total transitive xs)
    (sortBy_sorted total transitive ys)
  intro a b first second
  exact antisymmetric a (mem_sortBy.mp first) b (same.mem_iff.mpr (mem_sortBy.mp second))

end Groundplan.Sorting
