import Groundplan.Proofs.Equality.Total
import Groundplan.Proofs.Safety.Evaluation

/-!
# Well-Formed Values

A value is well formed if, at every depth, the keys of maps and objects are different, and the
elements of sets ascend strictly and hold nothing unknown.  That its numbers are finite is part of
their type.  The property passes between collections and their parts, and conversions keep it: of
them only the one to sets makes sets, which sorts what it keeps and makes none of unknown elements.

## Main Definitions

- `Value.HasKnownSets`: no set holds unknown
- `Value.IsWellFormed`

## Main Statements

- `Value.hereditary_isWellFormed`: values are well formed if their parts are
- `Value.isWellFormed_setOf`: the set of some values
- `Value.toSetValue_returns`, `Value.toMapValue_returns`: conversions keep values well formed
-/

namespace Groundplan

/-- Results are in `P`, whatever defects there are. -/
abbrev Returns {α : Type} (P : α → Prop) (x : Outcome α) : Prop :=
  Yields (fun _ => True) P x

theorem returns_true {α : Type} (x : Outcome α) : Returns (fun _ => True) x :=
  ⟨fun _ _ => trivial, fun _ _ => trivial⟩

namespace Value

/-! ## Well-formed values -/

mutual

/-- No set, at any depth, holds unknown at any depth. -/
def HasKnownSets : Value → Prop
  | .list items => ItemsHaveKnownSets items
  | .set items => anyContainsUnknown items = false ∧ ItemsHaveKnownSets items
  | .map fields => FieldsHaveKnownSets fields
  | .object fields => FieldsHaveKnownSets fields
  | .null | .bool _ | .number _ | .string _ | .unknown => True

/-- No set in some values holds unknown. -/
def ItemsHaveKnownSets : List Value → Prop
  | [] => True
  | v :: vs => HasKnownSets v ∧ ItemsHaveKnownSets vs

/-- No set in the values of some fields holds unknown. -/
def FieldsHaveKnownSets : List (String × Value) → Prop
  | [] => True
  | (_, v) :: fields => HasKnownSets v ∧ FieldsHaveKnownSets fields

end

/-- The keys of maps and objects are different, and the elements of sets ascend strictly and hold
nothing unknown, at every depth. -/
def IsWellFormed (v : Value) : Prop :=
  v.IsValid ∧ v.HasKnownSets

variable {v : Value} {vs : List Value} {fs : List (String × Value)}

theorem hasKnownSets_plain (h : v.isCollection = false) : v.HasKnownSets := by
  cases v with
  | null | bool | number | string | unknown => trivial
  | list | set | map | object => cases h

theorem itemsHaveKnownSets_iff : ItemsHaveKnownSets vs ↔ ∀ v ∈ vs, v.HasKnownSets := by
  induction vs with
  | nil => exact ⟨fun _ v hv => absurd hv List.not_mem_nil, fun _ => trivial⟩
  | cons v vs ih =>
    rw [List.forall_mem_cons, ← ih]
    exact .rfl

theorem fieldsHaveKnownSets_iff :
    FieldsHaveKnownSets fs ↔ ∀ f ∈ fs, f.2.HasKnownSets := by
  induction fs with
  | nil => exact ⟨fun _ f hf => absurd hf List.not_mem_nil, fun _ => trivial⟩
  | cons f fs ih =>
    rw [List.forall_mem_cons, ← ih]
    exact .rfl

theorem hasKnownSets_list : (Value.list vs).HasKnownSets ↔ ∀ v ∈ vs, v.HasKnownSets :=
  itemsHaveKnownSets_iff

theorem hasKnownSets_set :
    (Value.set vs).HasKnownSets ↔ anyContainsUnknown vs = false ∧ ∀ v ∈ vs, v.HasKnownSets :=
  and_congr_right fun _ => itemsHaveKnownSets_iff

theorem hasKnownSets_map : (Value.map fs).HasKnownSets ↔ ∀ f ∈ fs, f.2.HasKnownSets :=
  fieldsHaveKnownSets_iff

theorem hasKnownSets_object : (Value.object fs).HasKnownSets ↔ ∀ f ∈ fs, f.2.HasKnownSets :=
  fieldsHaveKnownSets_iff

theorem isWellFormed_plain (h : v.isCollection = false) : v.IsWellFormed := by
  refine ⟨?_, hasKnownSets_plain h⟩
  cases v with
  | null | bool | number | string | unknown => simp only [IsValid]
  | list | set | map | object => cases h

theorem returns_map_plain {α : Type} (x : Outcome α) {f : α → Value}
    (hf : ∀ a, (f a).isCollection = false) : Returns IsWellFormed (x.map f) :=
  (returns_true x).map fun a _ => isWellFormed_plain (hf a)

theorem isWellFormed_list : (Value.list vs).IsWellFormed ↔ ∀ v ∈ vs, v.IsWellFormed := by
  simp only [IsWellFormed, IsValid, hasKnownSets_list, itemsValid_iff]
  exact forall₂_and.symm

theorem isWellFormed_set :
    (Value.set vs).IsWellFormed ↔ (vs.Pairwise fun v w => compare v w = .lt)
      ∧ anyContainsUnknown vs = false ∧ ∀ v ∈ vs, v.IsWellFormed := by
  simp only [IsWellFormed, IsValid, hasKnownSets_set, itemsValid_iff, forall₂_and]
  tauto

theorem isWellFormed_map :
    (Value.map fs).IsWellFormed
      ↔ (Table.keys fs).Nodup ∧ ∀ f ∈ fs, f.2.IsWellFormed := by
  simp only [IsWellFormed, IsValid, hasKnownSets_map, fieldsValid_iff, forall₂_and]
  tauto

theorem isWellFormed_object :
    (Value.object fs).IsWellFormed
      ↔ (Table.keys fs).Nodup ∧ ∀ f ∈ fs, f.2.IsWellFormed := by
  simp only [IsWellFormed, IsValid, hasKnownSets_object, fieldsValid_iff, forall₂_and]
  tauto

/-- Values are well formed if their parts are. -/
theorem hereditary_isWellFormed : Hereditary IsWellFormed where
  plain _ h := isWellFormed_plain h
  list _ := isWellFormed_list
  set _ h := (isWellFormed_set.mp h).2.2
  map _ h := (isWellFormed_map.mp h).2
  object _ h := (isWellFormed_object.mp h).2
  ofEntries _ hdistinct h := isWellFormed_map.mpr ⟨hdistinct, h⟩
  ofFields _ hdistinct h := isWellFormed_object.mpr ⟨hdistinct, h⟩

/-- The elements of a list or set, or none. -/
theorem IsWellFormed.items (h : v.IsWellFormed) : ∀ u ∈ v.items?.getD [], u.IsWellFormed := by
  cases v with
  | list items => exact isWellFormed_list.mp h
  | set items => exact (isWellFormed_set.mp h).2.2
  | null | bool | number | string | map | object | unknown =>
    exact fun u hu => absurd hu List.not_mem_nil

/-- The fields of a map or object, or none. -/
theorem IsWellFormed.fields (h : v.IsWellFormed) :
    (Table.keys (v.fields?.getD [])).Nodup ∧ ∀ f ∈ v.fields?.getD [], f.2.IsWellFormed := by
  cases v with
  | map fields => exact isWellFormed_map.mp h
  | object fields => exact isWellFormed_object.mp h
  | null | bool | number | string | list | set | unknown =>
    exact ⟨List.nodup_nil, fun f hf => absurd hf List.not_mem_nil⟩

/-! ## Sets -/

theorem anyContainsUnknown_eq_any (vs : List Value) :
    anyContainsUnknown vs = vs.any containsUnknown := by
  induction vs with
  | nil => rfl
  | cons v vs ih => rw [anyContainsUnknown, List.any_cons, ih]

/-- The set of some values is well formed if they are and hold nothing unknown. -/
theorem isWellFormed_setOf (hitems : ∀ v ∈ vs, v.IsWellFormed)
    (hknown : anyContainsUnknown vs = false) : (setOf vs).IsWellFormed := by
  refine isWellFormed_set.mpr ⟨setOf_ascending fun v hv => (hitems v hv).1, ?_,
    fun v hv => hitems v (mem_setOf hv)⟩
  rw [anyContainsUnknown_eq_any, List.any_eq_false] at hknown ⊢
  exact fun v hv => hknown v (mem_setOf hv)

/-! ## Conversions -/

theorem toStringValue_returns (v : Value) : Returns IsWellFormed v.toStringValue := by
  unfold toStringValue
  split
  · exact .ok (isWellFormed_plain rfl)
  · exact .ok (isWellFormed_plain rfl)
  · exact returns_map_plain _ fun _ => rfl

theorem toNumberValue_returns (v : Value) : Returns IsWellFormed v.toNumberValue := by
  cases v with
  | null | unknown | number => exact .ok (isWellFormed_plain rfl)
  | string s => exact returns_map_plain _ fun _ => rfl
  | bool | list | set | map | object => exact .fail

theorem toBoolValue_returns (v : Value) : Returns IsWellFormed v.toBoolValue := by
  cases v with
  | null | unknown | bool => exact .ok (isWellFormed_plain rfl)
  | string s =>
    refine .ite (fun _ => .ok (isWellFormed_plain rfl)) fun _ => .ite (fun _ => ?_) fun _ => .fail
    exact .ok (isWellFormed_plain rfl)
  | number | list | set | map | object => exact .fail

theorem toListValue_returns (h : v.IsWellFormed) : Returns IsWellFormed v.toListValue := by
  cases v with
  | set items =>
    refine .ok (isWellFormed_list.mpr fun u hu => ?_)
    exact (isWellFormed_set.mp h).2.2 u (Sorting.mem_sortBy.mp hu)
  | null | unknown | list => exact .ok h
  | bool | number | string | map | object => exact .fail

/-- A list that holds unknown converts to unknown, and any other one to a well-formed set. -/
theorem toSetValue_returns (h : v.IsWellFormed) : Returns IsWellFormed v.toSetValue := by
  cases v with
  | list items =>
    refine .ok ?_
    split
    · exact isWellFormed_plain rfl
    · rename_i hknown
      exact isWellFormed_setOf (isWellFormed_list.mp h) (by simpa using hknown)
  | null | unknown | set => exact .ok h
  | bool | number | string | map | object => exact .fail

theorem toMapValue_returns (h : v.IsWellFormed) : Returns IsWellFormed v.toMapValue := by
  cases v with
  | object fields =>
    refine .ite (fun _ => .fail) fun _ => .ok ?_
    exact isWellFormed_map.mpr (isWellFormed_object.mp h)
  | null | unknown | map => exact .ok h
  | bool | number | string | list | set => exact .fail

end Value

end Groundplan
