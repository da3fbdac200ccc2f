import Groundplan.Proofs.Equality.Value

/-!
# The Order of Values That Are Alike

The order of values does not tell apart values that are alike: neither the order of fields nor the
representation of numbers shows.  So sorting, leaving out repetitions and making a set keep lists
alike.

## Main Statements

- `Value.Alike.compare_congr`: comparison
- `Value.compare_self`, `Value.compare_swap`: the order is one
- `Value.ItemsAlike.sorted`, `Value.ItemsAlike.distinct`, `Value.ItemsAlike.setOf`
-/

namespace Groundplan

/-! ## Sorting related elements -/

namespace Sorting

variable {α β : Type} {R : α → β → Prop} {p : α → α → Bool} {q : β → β → Bool} {as : List α}
  {bs : List β}

/-- Related elements get the same place among related elements. -/
theorem forall₂_insertBy (hpq : ∀ a a' b b', R a b → R a' b' → p a a' = q b b') {a : α} {b : β}
    (hab : R a b) (h : List.Forall₂ R as bs) :
    List.Forall₂ R (insertBy p a as) (insertBy q b bs) := by
  induction h with
  | nil => exact .cons hab .nil
  | @cons a' b' as' bs' hhead htail ih =>
    unfold insertBy
    rw [hpq a a' b b' hab hhead]
    split
    · exact .cons hab (.cons hhead htail)
    · exact .cons hhead ih

/-- Sorting by tests that agree on related elements moves them alike. -/
theorem forall₂_sortBy (hpq : ∀ a a' b b', R a b → R a' b' → p a a' = q b b')
    (h : List.Forall₂ R as bs) : List.Forall₂ R (sortBy p as) (sortBy q bs) := by
  induction h with
  | nil => exact .nil
  | cons hhead _ ih => exact forall₂_insertBy hpq hhead ih

end Sorting

namespace Value

variable {v v' w w' : Value} {vs ws : List Value} {fs gs : List (String × Value)}

/-! ## Fields in the order of their keys -/

theorem keySortedFields_related (fs : List (String × Value)) :
    Table.Related (fun v w => w = v.keySorted) fs (keySortedFields fs) := by
  induction fs with
  | nil => exact .nil
  | cons f fs ih => exact .cons f.1 rfl ih

theorem eq_keySortedFields (h : Table.Related (fun v w => w = v.keySorted) fs gs) :
    gs = keySortedFields fs := by
  induction h with
  | nil => rfl
  | cons key hvalue _ ih => rw [keySortedFields, hvalue, ih]

theorem sortKeys_keySortedFields (fs : List (String × Value)) :
    Sorting.sortKeys (keySortedFields fs) = keySortedFields (Sorting.sortKeys fs) :=
  eq_keySortedFields (keySortedFields_related fs).sortKeys

/-- The order of two tables: first that of their sorted keys, then that of the values. -/
def compareTables (fs gs : List (String × Value)) : Ordering :=
  (compareKeys (Table.keys (Sorting.sortKeys fs)) (Table.keys (Sorting.sortKeys gs))).then
    (compareFields (keySortedFields (Sorting.sortKeys fs)) (keySortedFields (Sorting.sortKeys gs)))

private theorem compareAligned_tables (fs gs : List (String × Value)) :
    (compareKeys (Table.keys (Sorting.sortKeys (keySortedFields fs)))
        (Table.keys (Sorting.sortKeys (keySortedFields gs)))).then
      (compareFields (Sorting.sortKeys (keySortedFields fs))
        (Sorting.sortKeys (keySortedFields gs))) = compareTables fs gs := by
  rw [(keySortedFields_related fs).sortKeys.keys_eq, (keySortedFields_related gs).sortKeys.keys_eq,
    sortKeys_keySortedFields, sortKeys_keySortedFields, compareTables]

theorem compare_map (fs gs : List (String × Value)) :
    compare (.map fs) (.map gs) = compareTables fs gs := by
  simp only [compare, keySorted, compareAligned, compareAligned_tables]

theorem compare_object (fs gs : List (String × Value)) :
    compare (.object fs) (.object gs) = compareTables fs gs := by
  simp only [compare, keySorted, compareAligned, compareAligned_tables]

/-! ## Comparison -/

/-- Values that compare alike with all others. -/
def Comparable (v v' : Value) : Prop :=
  ∀ w w', Alike w w' → compare v w = compare v' w'

theorem compareFields_congr {fs' gs' : List (String × Value)}
    (h : Table.Related Comparable fs fs') (hgs : Table.Related Alike gs gs') :
    compareFields (keySortedFields fs) (keySortedFields gs)
      = compareFields (keySortedFields fs') (keySortedFields gs') := by
  induction h generalizing gs gs' with
  | nil => cases hgs <;> simp only [keySortedFields, compareFields]
  | cons key hhead _ ih =>
    cases hgs with
    | nil => simp only [keySortedFields, compareFields]
    | cons key' hhead' htail' =>
      have hvalues := hhead _ _ hhead'
      simp only [compare] at hvalues
      simp only [keySortedFields, compareFields, hvalues, ih htail']

theorem compareTables_congr {fs' gs' : List (String × Value)}
    (h : Table.Similar Comparable fs fs') (hgs : Table.Similar Alike gs gs') :
    compareTables fs gs = compareTables fs' gs' := by
  rw [compareTables, compareTables, h.sortKeys.keys_eq, hgs.sortKeys.keys_eq,
    compareFields_congr h.sortKeys hgs.sortKeys]

mutual

/-- The order of values does not tell apart values that are alike. -/
theorem Alike.compare_congr {v v' : Value} (h : Alike v v') {w w' : Value} (hw : Alike w w') :
    compare v w = compare v' w' := by
  match h with
  -- Against a value of another kind only the ranks of the kinds are compared.
  | .null | .unknown | .bool _ | .string _ =>
    cases hw <;> simp only [compare, keySorted, compareAligned, kind]
  | .number hab =>
    cases hw with
    | number hcd =>
      simp only [compare, keySorted, compareAligned]
      exact Decimal.compare_congr hab hcd
    | _ => simp only [compare, keySorted, compareAligned, kind]
  | .list hitems =>
    cases hw with
    | list hitems' =>
      simp only [compare, keySorted, compareAligned]
      exact hitems.compareItems_congr hitems'
    | _ => simp only [compare, keySorted, compareAligned, kind]
  | .set hitems =>
    cases hw with
    | set hitems' =>
      simp only [compare, keySorted, compareAligned]
      exact hitems.compareItems_congr hitems'
    | _ => simp only [compare, keySorted, compareAligned, kind]
  | .map hdistinct hfields hperm =>
    cases hw with
    | map hdistinct' hfields' hperm' =>
      -- In the order of their keys the fields are related place by place.
      rw [compare_map, compare_map]
      exact compareTables_congr ⟨hdistinct, _, hfields.comparable, hperm⟩
        (hfields'.similar hdistinct' hperm')
    | _ => simp only [compare, keySorted, compareAligned, kind]
  | .object hdistinct hfields hperm =>
    cases hw with
    | object hdistinct' hfields' hperm' =>
      rw [compare_object, compare_object]
      exact compareTables_congr ⟨hdistinct, _, hfields.comparable, hperm⟩
        (hfields'.similar hdistinct' hperm')
    | _ => simp only [compare, keySorted, compareAligned, kind]

theorem ItemsAlike.compareItems_congr {vs vs' : List Value} (h : ItemsAlike vs vs')
    {ws ws' : List Value} (hws : ItemsAlike ws ws') :
    compareItems (keySortedItems vs) (keySortedItems ws)
      = compareItems (keySortedItems vs') (keySortedItems ws') := by
  match h with
  | .nil => cases hws <;> simp only [keySortedItems, compareItems]
  | .cons hhead htail =>
    cases hws with
    | nil => simp only [keySortedItems, compareItems]
    | cons hhead' htail' =>
      have hvalues := hhead.compare_congr hhead'
      simp only [compare] at hvalues
      simp only [keySortedItems, compareItems, hvalues, htail.compareItems_congr htail']

/-- Fields that are alike compare alike, value by value. -/
theorem FieldsAlike.comparable {fs gs : List (String × Value)} (h : FieldsAlike fs gs) :
    Table.Related Comparable fs gs := by
  match h with
  | .nil => exact .nil
  | .cons hhead htail => exact .cons _ (fun _ _ hw => hhead.compare_congr hw) htail.comparable

end

/-! ## Laws of the order -/

theorem compareTexts_self (s : String) : compareTexts s s = .eq := by
  simp [compareTexts]

theorem compareKeys_self (keys : List String) : compareKeys keys keys = .eq := by
  induction keys with
  | nil => rfl
  | cons key keys ih => rw [compareKeys, compareTexts_self, ih]; rfl

mutual

theorem compareAligned_self (v : Value) : compareAligned v v = .eq := by
  match v with
  | .null | .unknown | .bool _ => simp [compareAligned]
  | .number n =>
    simp only [compareAligned]
    rw [Decimal.compare_eq_cmp, cmp_self_eq_eq]
  | .string s => simp [compareAligned, compareTexts_self]
  | .list items | .set items =>
    simp only [compareAligned]
    exact compareItems_self items
  | .map fields | .object fields =>
    simp only [compareAligned, compareKeys_self]
    exact compareFields_self fields

theorem compareItems_self (vs : List Value) : compareItems vs vs = .eq := by
  match vs with
  | [] => rfl
  | v :: vs => rw [compareItems, compareAligned_self v, compareItems_self vs]; rfl

theorem compareFields_self (fs : List (String × Value)) : compareFields fs fs = .eq := by
  match fs with
  | [] => rfl
  | (_, v) :: fs => rw [compareFields, compareAligned_self v, compareFields_self fs]; rfl

end

theorem compare_self (v : Value) : compare v v = .eq :=
  compareAligned_self _

theorem compareTexts_swap (s t : String) : (compareTexts s t).swap = compareTexts t s := by
  unfold compareTexts
  by_cases heq : s = t
  · simp [heq]
  · by_cases hlt : s < t
    · have hgt : ¬ t < s := String.lt_asymm hlt
      simp [hlt, hgt, Ne.symm heq]
    · have hgt : t < s := by
        by_contra hgt
        exact heq (String.le_antisymm (String.not_lt.mp hgt) (String.not_lt.mp hlt))
      simp [hlt, hgt, heq]

theorem compareKeys_swap (keys others : List String) :
    (compareKeys keys others).swap = compareKeys others keys := by
  induction keys generalizing others with
  | nil => cases others <;> rfl
  | cons key keys ih =>
    cases others with
    | nil => rfl
    | cons other others =>
      rw [compareKeys, compareKeys, Ordering.swap_then, compareTexts_swap, ih]

mutual

theorem compareAligned_swap (v w : Value) : (compareAligned v w).swap = compareAligned w v := by
  match v with
  | .null | .unknown => cases w <;> simp only [compareAligned] <;> rfl
  | .bool a =>
    cases w with
    | bool b => cases a <;> cases b <;> simp only [compareAligned] <;> rfl
    | _ => simp only [compareAligned]; rfl
  | .number a =>
    cases w with
    | number b =>
      simp only [compareAligned]
      rw [Decimal.compare_eq_cmp, cmp_swap, ← Decimal.compare_eq_cmp]
    | _ => simp only [compareAligned]; rfl
  | .string a =>
    cases w with
    | string b => simp only [compareAligned, compareTexts_swap]
    | _ => simp only [compareAligned]; rfl
  | .list vs =>
    cases w with
    | list ws =>
      simp only [compareAligned]
      exact compareItems_swap vs ws
    | _ => simp only [compareAligned]; rfl
  | .set vs =>
    cases w with
    | set ws =>
      simp only [compareAligned]
      exact compareItems_swap vs ws
    | _ => simp only [compareAligned]; rfl
  | .map fs =>
    cases w with
    | map gs => simp only [compareAligned, Ordering.swap_then, compareKeys_swap,
        compareFields_swap fs gs]
    | _ => simp only [compareAligned]; rfl
  | .object fs =>
    cases w with
    | object gs => simp only [compareAligned, Ordering.swap_then, compareKeys_swap,
        compareFields_swap fs gs]
    | _ => simp only [compareAligned]; rfl

theorem compareItems_swap (vs ws : List Value) :
    (compareItems vs ws).swap = compareItems ws vs := by
  match vs, ws with
  | [], [] | [], _ :: _ | _ :: _, [] => rfl
  | v :: vs, w :: ws =>
    simp only [compareItems, Ordering.swap_then, compareAligned_swap v w, compareItems_swap vs ws]

theorem compareFields_swap (fs gs : List (String × Value)) :
    (compareFields fs gs).swap = compareFields gs fs := by
  match fs, gs with
  | [], [] | [], _ :: _ | _ :: _, [] => rfl
  | (_, v) :: fs, (_, w) :: gs =>
    simp only [compareFields, Ordering.swap_then, compareAligned_swap v w, compareFields_swap fs gs]

end

/-- Compared the other way round, the order is reversed. -/
theorem compare_swap (v w : Value) : (compare v w).swap = compare w v :=
  compareAligned_swap _ _

/-! ## Sorting and sets -/

theorem ItemsAlike.sorted (h : ItemsAlike vs ws) :
    ItemsAlike (Value.sorted vs) (Value.sorted ws) := by
  refine itemsAlike_iff.mpr (Sorting.forall₂_sortBy ?_ (itemsAlike_iff.mp h))
  intro a a' b b' hab hab'
  rw [hab.compare_congr hab']

theorem ItemsAlike.distinctAfter {earlier earlier' : List Value} (h : ItemsAlike vs ws)
    (hearlier : ItemsAlike earlier earlier') :
    ItemsAlike (Value.distinctAfter earlier vs) (Value.distinctAfter earlier' ws) := by
  induction vs generalizing ws earlier earlier' with
  | nil => cases h; exact .nil
  | cons v vs ih =>
    cases h with
    | cons hhead htail =>
      unfold Value.distinctAfter
      rw [hhead.among_congr hearlier]
      split
      · -- It is left out on both sides.
        exact ih htail hearlier
      · exact .cons hhead (ih htail (.cons hhead hearlier))

/-- Of values that are equal the first one is kept on both sides. -/
theorem ItemsAlike.distinct (h : ItemsAlike vs ws) :
    ItemsAlike (Value.distinct vs) (Value.distinct ws) :=
  h.distinctAfter .nil

theorem ItemsAlike.setOf (h : ItemsAlike vs ws) : Alike (Value.setOf vs) (Value.setOf ws) :=
  .set h.distinct.sorted

end Value

end Groundplan
