import Groundplan.Proofs.Equality.Valid
import Mathlib.Data.String.Basic

/-!
# Values Are Totally Ordered

The order of values is transitive, whatever their kinds, and of values that keep the invariants it
leaves only those undecided that are alike.  Sorting by it therefore gives an ascending list, and
the set of some values has its elements in strictly ascending order.

## Main Definitions

- `Composes`: what the order of two things and of the second to a third one says about all three

## Main Statements

- `Value.compare_composes`, `Value.compare_trans`: the order is transitive
- `Value.alike_of_compare_eq`: what it leaves undecided is alike
- `Value.sorted_ascending`, `Value.setOf_ascending`
-/

namespace Groundplan

/-! ## Orderings of three things -/

/-- The ordering of a first thing to a third one as those to and from a second one demand. -/
structure Composes (ab bc ac : Ordering) : Prop where
  first : ab = .eq → ac = bc
  second : bc = .eq → ac = ab
  ascending : ab = .lt → bc = .lt → ac = .lt

/-- Where a second ordering decides what the first one leaves open, both compose. -/
theorem Composes.then {ab bc ac ab' bc' ac' : Ordering} (h : Composes ab bc ac)
    (h' : ab = .eq → bc = .eq → Composes ab' bc' ac') :
    Composes (ab.then ab') (bc.then bc') (ac.then ac') := by
  cases ab with
  | eq =>
    obtain rfl := h.first rfl
    cases ac with
    | eq => exact h' rfl rfl
    | lt | gt => constructor <;> simp [Ordering.then]
  | lt =>
    cases bc with
    | eq =>
      obtain rfl := h.second rfl
      constructor <;> simp [Ordering.then]
    | lt =>
      obtain rfl := h.ascending rfl rfl
      constructor <;> simp [Ordering.then]
    | gt => constructor <;> simp [Ordering.then]
  | gt =>
    cases bc with
    | eq =>
      obtain rfl := h.second rfl
      constructor <;> simp [Ordering.then]
    | lt | gt => constructor <;> simp [Ordering.then]

theorem composes_cmp {α : Type} [LinearOrder α] (a b c : α) :
    Composes (cmp a b) (cmp b c) (cmp a c) := by
  refine ⟨fun hab => ?_, fun hbc => ?_, fun hab hbc => ?_⟩
  · rw [(cmp_eq_eq_iff a b).mp hab]
  · rw [(cmp_eq_eq_iff b c).mp hbc]
  · rw [cmp_eq_lt_iff] at hab hbc ⊢
    exact lt_trans hab hbc

namespace Value

variable {v w : Value} {vs ws : List Value} {fs gs : List (String × Value)}

/-! ## Transitivity -/

theorem compareTexts_eq_cmp (s t : String) : compareTexts s t = cmp s t := by
  unfold compareTexts
  rcases lt_trichotomy s t with hlt | heq | hgt
  · rw [if_pos hlt, (cmp_eq_lt_iff s t).mpr hlt]
  · rw [if_neg (heq ▸ lt_irrefl s), if_pos heq, (cmp_eq_eq_iff s t).mpr heq]
  · rw [if_neg (lt_asymm hgt), if_neg hgt.ne', (cmp_eq_gt_iff s t).mpr hgt]

theorem compareTexts_composes (s t u : String) :
    Composes (compareTexts s t) (compareTexts t u) (compareTexts s u) := by
  rw [compareTexts_eq_cmp, compareTexts_eq_cmp, compareTexts_eq_cmp]
  exact composes_cmp s t u

theorem compareKeys_composes (xs ys zs : List String) :
    Composes (compareKeys xs ys) (compareKeys ys zs) (compareKeys xs zs) := by
  induction xs generalizing ys zs with
  | nil =>
    cases ys <;> cases zs <;> constructor <;> simp [compareKeys]
  | cons x xs ih =>
    cases ys with
    | nil => cases zs <;> constructor <;> simp [compareKeys]
    | cons y ys =>
      cases zs with
      | nil => constructor <;> simp [compareKeys]
      | cons z zs => exact (compareTexts_composes x y z).then fun _ _ => ih ys zs

/-- Values of different kinds are in the order of the kinds. -/
theorem compareAligned_of_kind_ne (h : v.kind ≠ w.kind) :
    compareAligned v w = Ord.compare v.kind.rank w.kind.rank := by
  cases v <;> cases w <;> first | exact absurd rfl h | simp only [compareAligned]

theorem compareAligned_ne_eq (h : v.kind ≠ w.kind) : compareAligned v w ≠ .eq := by
  rw [compareAligned_of_kind_ne h]
  intro hsame
  have hranks := Nat.compare_eq_eq.mp hsame
  generalize v.kind = k at h hranks
  generalize w.kind = l at h hranks
  cases k <;> cases l <;> first | exact h rfl | cases hranks

/-- Three values, not all of one kind. -/
theorem compareAligned_composes_kinds {u v w : Value} (h : ¬ (u.kind = v.kind ∧ v.kind = w.kind)) :
    Composes (compareAligned u v) (compareAligned v w) (compareAligned u w) := by
  by_cases huv : u.kind = v.kind
  · have hvw : v.kind ≠ w.kind := fun hvw => h ⟨huv, hvw⟩
    have hsame : compareAligned u w = compareAligned v w := by
      rw [compareAligned_of_kind_ne hvw, compareAligned_of_kind_ne (huv ▸ hvw), huv]
    exact ⟨fun _ => hsame, fun heq => absurd heq (compareAligned_ne_eq hvw),
      fun _ hlt => hsame.trans hlt⟩
  · by_cases hvw : v.kind = w.kind
    · have hsame : compareAligned u w = compareAligned u v := by
        rw [compareAligned_of_kind_ne huv, compareAligned_of_kind_ne (hvw ▸ huv), hvw]
      exact ⟨fun heq => absurd heq (compareAligned_ne_eq huv), fun _ => hsame,
        fun hlt _ => hsame.trans hlt⟩
    · refine ⟨fun heq => absurd heq (compareAligned_ne_eq huv),
        fun heq => absurd heq (compareAligned_ne_eq hvw), fun hlt hlt' => ?_⟩
      rw [compareAligned_of_kind_ne huv] at hlt
      rw [compareAligned_of_kind_ne hvw] at hlt'
      have hless := Nat.lt_trans (Nat.compare_eq_lt.mp hlt) (Nat.compare_eq_lt.mp hlt')
      have huw : u.kind ≠ w.kind := fun huw => Nat.ne_of_lt hless (congrArg Kind.rank huw)
      rw [compareAligned_of_kind_ne huw]
      exact Nat.compare_eq_lt.mpr hless

mutual

/-- The order is transitive on values whose maps and objects have sorted keys. -/
theorem compareAligned_composes (u v w : Value) :
    Composes (compareAligned u v) (compareAligned v w) (compareAligned u w) := by
  by_cases h : u.kind = v.kind ∧ v.kind = w.kind
  swap
  · exact compareAligned_composes_kinds h
  obtain ⟨huv, hvw⟩ := h
  match u with
  | .null =>
    cases v with
    | null =>
      cases w with
      | null => exact ⟨fun _ => rfl, fun _ => rfl, fun hlt _ => hlt⟩
      | _ => cases hvw
    | _ => cases huv
  | .unknown =>
    cases v with
    | unknown =>
      cases w with
      | unknown => exact ⟨fun _ => rfl, fun _ => rfl, fun hlt _ => hlt⟩
      | _ => cases hvw
    | _ => cases huv
  | .bool a =>
    cases v with
    | bool b =>
      cases w with
      | bool c =>
        simp only [compareAligned]
        cases a <;> cases b <;> cases c <;> constructor <;> decide
      | _ => cases hvw
    | _ => cases huv
  | .number a =>
    cases v with
    | number b =>
      cases w with
      | number c =>
        simp only [compareAligned]
        rw [Decimal.compare_eq_cmp, Decimal.compare_eq_cmp, Decimal.compare_eq_cmp]
        exact composes_cmp _ _ _
      | _ => cases hvw
    | _ => cases huv
  | .string s =>
    cases v with
    | string t =>
      cases w with
      | string u =>
        simp only [compareAligned]
        exact compareTexts_composes s t u
      | _ => cases hvw
    | _ => cases huv
  | .list us =>
    cases v with
    | list vs =>
      cases w with
      | list ws =>
        simp only [compareAligned]
        exact compareItems_composes us vs ws
      | _ => cases hvw
    | _ => cases huv
  | .set us =>
    cases v with
    | set vs =>
      cases w with
      | set ws =>
        simp only [compareAligned]
        exact compareItems_composes us vs ws
      | _ => cases hvw
    | _ => cases huv
  | .map es =>
    cases v with
    | map fs =>
      cases w with
      | map gs =>
        simp only [compareAligned]
        exact (compareKeys_composes _ _ _).then fun _ _ => compareFields_composes es fs gs
      | _ => cases hvw
    | _ => cases huv
  | .object es =>
    cases v with
    | object fs =>
      cases w with
      | object gs =>
        simp only [compareAligned]
        exact (compareKeys_composes _ _ _).then fun _ _ => compareFields_composes es fs gs
      | _ => cases hvw
    | _ => cases huv

theorem compareItems_composes (us vs ws : List Value) :
    Composes (compareItems us vs) (compareItems vs ws) (compareItems us ws) := by
  match us, vs, ws with
  | [], vs, ws => cases vs <;> cases ws <;> constructor <;> simp [compareItems]
  | _ :: _, [], ws => cases ws <;> constructor <;> simp [compareItems]
  | _ :: _, _ :: _, [] => constructor <;> simp [compareItems]
  | u :: us, v :: vs, w :: ws =>
    simp only [compareItems]
    exact (compareAligned_composes u v w).then fun _ _ => compareItems_composes us vs ws

theorem compareFields_composes (es fs gs : List (String × Value)) :
    Composes (compareFields es fs) (compareFields fs gs) (compareFields es gs) := by
  match es, fs, gs with
  | [], fs, gs => cases fs <;> cases gs <;> constructor <;> simp [compareFields]
  | _ :: _, [], gs => cases gs <;> constructor <;> simp [compareFields]
  | _ :: _, _ :: _, [] => constructor <;> simp [compareFields]
  | (_, u) :: es, (_, v) :: fs, (_, w) :: gs =>
    simp only [compareFields]
    exact (compareAligned_composes u v w).then fun _ _ => compareFields_composes es fs gs

end

/-- The order of values is transitive. -/
theorem compare_composes (u v w : Value) : Composes (compare u v) (compare v w) (compare u w) :=
  compareAligned_composes _ _ _

theorem compare_trans {u v w : Value} (huv : compare u v ≠ .gt) (hvw : compare v w ≠ .gt) :
    compare u w ≠ .gt := by
  have h := compare_composes u v w
  cases hab : compare u v with
  | eq => exact h.first hab ▸ hvw
  | lt =>
    cases hbc : compare v w with
    | eq => exact h.second hbc ▸ huv
    | lt => simp [h.ascending hab hbc]
    | gt => exact absurd hbc hvw
  | gt => exact absurd hab huv

/-! ## Undecided values -/

theorem eq_of_compareKeys_eq {xs ys : List String} (h : compareKeys xs ys = .eq) : xs = ys := by
  induction xs generalizing ys with
  | nil =>
    cases ys with
    | nil => rfl
    | cons y ys => cases h
  | cons x xs ih =>
    cases ys with
    | nil => cases h
    | cons y ys =>
      rw [compareKeys, Ordering.then_eq_eq, compareTexts_eq_cmp, cmp_eq_eq_iff] at h
      rw [h.1, ih h.2]

/-- Tables with the same keys whose values compare as equal have related values, if that is what
it takes for the values of the first one. -/
theorem related_of_compareFields_eq (hkeys : Table.keys fs = Table.keys gs)
    (hvalues : ∀ f ∈ fs, ∀ w : Value, w.IsValid → compare f.2 w = .eq → Alike f.2 w)
    (hvalid : ∀ g ∈ gs, g.2.IsValid)
    (h : compareFields (keySortedFields fs) (keySortedFields gs) = .eq) :
    Table.Related Alike fs gs := by
  induction fs generalizing gs with
  | nil =>
    cases gs with
    | nil => exact .nil
    | cons g gs => cases hkeys
  | cons f fs ih =>
    cases gs with
    | nil => cases hkeys
    | cons g gs =>
      obtain ⟨key, v⟩ := f
      obtain ⟨key', w⟩ := g
      obtain ⟨hhead, htail⟩ := List.cons.inj hkeys
      obtain ⟨hv, hvs⟩ := List.forall_mem_cons.mp hvalues
      obtain ⟨hw, hws⟩ := List.forall_mem_cons.mp hvalid
      simp only [keySortedFields, compareFields, Ordering.then_eq_eq] at h
      obtain rfl : key = key' := hhead
      exact .cons key (hv w hw h.1) (ih htail hvs hws h.2)

theorem similar_of_compareTables_eq (hfs : (Table.keys fs).Nodup) (hgs : (Table.keys gs).Nodup)
    (hvalues : ∀ f ∈ fs, ∀ w : Value, w.IsValid → compare f.2 w = .eq → Alike f.2 w)
    (hvalid : ∀ g ∈ gs, g.2.IsValid) (h : compareTables fs gs = .eq) :
    Table.Similar Alike fs gs := by
  rw [compareTables, Ordering.then_eq_eq] at h
  have hsorted : ∀ t : List (String × Value), (Sorting.sortKeys t).Perm t := fun t =>
    Sorting.sortBy_perm _ t
  have hrelated := related_of_compareFields_eq (eq_of_compareKeys_eq h.1)
    (fun f hf => hvalues f ((hsorted fs).mem_iff.mp hf))
    (fun g hg => hvalid g ((hsorted gs).mem_iff.mp hg)) h.2
  -- Look-ups do not depend on the order of the fields.
  refine Table.similar_of_get? hfs hgs fun key => ?_
  rw [Table.get?_perm (hsorted fs).symm hfs, Table.get?_perm (hsorted gs).symm hgs]
  exact hrelated.get? key

mutual

/-- Of values that keep the invariants, those that the order leaves undecided are alike. -/
theorem IsValid.alike_of_compare_eq {v : Value} (hv : v.IsValid) {w : Value} (hw : w.IsValid)
    (h : compare v w = .eq) : Alike v w := by
  by_cases hkind : v.kind = w.kind
  swap
  · have hkeySorted : ∀ u : Value, u.keySorted.kind = u.kind := fun u => by
      cases u <;> simp only [keySorted, kind]
    refine absurd h (compareAligned_ne_eq ?_)
    rwa [hkeySorted, hkeySorted]
  match v with
  | .null =>
    cases w with
    | null => exact .null
    | _ => cases hkind
  | .unknown =>
    cases w with
    | unknown => exact .unknown
    | _ => cases hkind
  | .bool a =>
    cases w with
    | bool b =>
      simp only [compare, keySorted, compareAligned] at h
      cases a <;> cases b <;> first | exact .bool _ | cases h
    | _ => cases hkind
  | .number a =>
    cases w with
    | number b =>
      simp only [compare, keySorted, compareAligned] at h
      rw [Decimal.compare_eq_cmp, cmp_eq_eq_iff] at h
      exact .number h
    | _ => cases hkind
  | .string s =>
    cases w with
    | string t =>
      simp only [compare, keySorted, compareAligned] at h
      rw [compareTexts_eq_cmp, cmp_eq_eq_iff] at h
      exact h ▸ .string s
    | _ => cases hkind
  | .list vs =>
    cases w with
    | list ws =>
      simp only [IsValid] at hv hw
      simp only [compare, keySorted, compareAligned] at h
      exact .list (hv.alike_of_compareItems_eq hw h)
    | _ => cases hkind
  | .set vs =>
    cases w with
    | set ws =>
      simp only [IsValid] at hv hw
      simp only [compare, keySorted, compareAligned] at h
      exact .set (hv.2.alike_of_compareItems_eq hw.2 h)
    | _ => cases hkind
  | .map fs =>
    cases w with
    | map gs =>
      simp only [IsValid] at hv hw
      rw [compare_map] at h
      exact alike_map (similar_of_compareTables_eq hv.1 hw.1 hv.2.alike_of_compare_eq
        (fieldsValid_iff.mp hw.2) h)
    | _ => cases hkind
  | .object fs =>
    cases w with
    | object gs =>
      simp only [IsValid] at hv hw
      rw [compare_object] at h
      exact alike_object (similar_of_compareTables_eq hv.1 hw.1 hv.2.alike_of_compare_eq
        (fieldsValid_iff.mp hw.2) h)
    | _ => cases hkind

theorem ItemsValid.alike_of_compareItems_eq {vs : List Value} (hvs : ItemsValid vs)
    {ws : List Value} (hws : ItemsValid ws)
    (h : compareItems (keySortedItems vs) (keySortedItems ws) = .eq) : ItemsAlike vs ws := by
  match vs, ws with
  | [], [] => exact .nil
  | [], _ :: _ | _ :: _, [] => cases h
  | v :: vs, w :: ws =>
    simp only [ItemsValid] at hvs hws
    simp only [keySortedItems, compareItems, Ordering.then_eq_eq] at h
    exact .cons (hvs.1.alike_of_compare_eq hws.1 h.1)
      (hvs.2.alike_of_compareItems_eq hws.2 h.2)

theorem FieldsValid.alike_of_compare_eq {fs : List (String × Value)} (hfs : FieldsValid fs) :
    ∀ f ∈ fs, ∀ w : Value, w.IsValid → compare f.2 w = .eq → Alike f.2 w := by
  match fs with
  | [] => exact fun f hf => absurd hf List.not_mem_nil
  | (key, v) :: fs =>
    simp only [FieldsValid] at hfs
    exact List.forall_mem_cons.mpr
      ⟨fun w hw h => hfs.1.alike_of_compare_eq hw h, hfs.2.alike_of_compare_eq⟩

end

/-! ## Ascending values -/

theorem sorted_ascending (values : List Value) :
    (Value.sorted values).Pairwise fun v w => compare v w ≠ .gt := by
  have hsorted : (Value.sorted values).Pairwise fun v w => (compare v w != .gt) = true := by
    refine Sorting.sortBy_sorted (fun v w => ?_) (fun u v w huv hvw => ?_) values
    · by_cases hgt : compare v w = .gt
      · have hlt : compare w v = .lt := by
          rw [← compare_swap, hgt]
          rfl
        exact .inr (by simp [hlt])
      · exact .inl (by simpa using hgt)
    · simp only [bne_iff_ne] at huv hvw ⊢
      exact compare_trans huv hvw
  exact hsorted.imp fun h => by simpa using h

/-- Of the values that are kept none equals an earlier one. -/
theorem distinctAfter_pairwise (earlier values : List Value) :
    (distinctAfter earlier values).Pairwise (fun v w => w.equals v = false)
      ∧ ∀ v ∈ distinctAfter earlier values, v ∈ values ∧ v.among earlier = false := by
  induction values generalizing earlier with
  | nil => exact ⟨.nil, fun v hv => absurd hv List.not_mem_nil⟩
  | cons v values ih =>
    unfold distinctAfter
    split
    · obtain ⟨hpairwise, hmem⟩ := ih earlier
      exact ⟨hpairwise, fun w hw => ⟨List.mem_cons_of_mem v (hmem w hw).1, (hmem w hw).2⟩⟩
    · rename_i hfresh
      obtain ⟨hpairwise, hmem⟩ := ih (v :: earlier)
      have hlater : ∀ w ∈ distinctAfter (v :: earlier) values,
          w ∈ values ∧ w.equals v = false ∧ w.among earlier = false := by
        intro w hw
        obtain ⟨hvalues, hamong⟩ := hmem w hw
        rw [among, List.any_cons, Bool.or_eq_false_iff] at hamong
        exact ⟨hvalues, hamong⟩
      refine ⟨List.pairwise_cons.mpr ⟨fun w hw => (hlater w hw).2.1, hpairwise⟩,
        List.forall_mem_cons.mpr ⟨⟨List.mem_cons_self, by simpa using hfresh⟩, fun w hw => ?_⟩⟩
      exact ⟨List.mem_cons_of_mem v (hlater w hw).1, (hlater w hw).2.2⟩

theorem mem_of_mem_distinct {values : List Value} (h : v ∈ distinct values) : v ∈ values :=
  ((distinctAfter_pairwise [] values).2 v h).1

/-- The elements of the set of some values are among them. -/
theorem mem_setOf (h : v ∈ Value.sorted (distinct vs)) : v ∈ vs :=
  mem_of_mem_distinct (Sorting.mem_sortBy.mp h)

/-- The elements of the set of some values are in strictly ascending order. -/
theorem setOf_ascending {values : List Value} (hvalid : ∀ v ∈ values, v.IsValid) :
    (Value.sorted (distinct values)).Pairwise fun v w => compare v w = .lt := by
  have hdecided : (distinct values).Pairwise fun v w => compare v w ≠ .eq := by
    refine (distinctAfter_pairwise [] values).1.imp_of_mem fun {v w} hv hw hdiffer heq => ?_
    have hswapped : compare w v = .eq := by
      rw [← compare_swap, heq]
      rfl
    have halike := (hvalid w (mem_of_mem_distinct hw)).alike_of_compare_eq
      (hvalid v (mem_of_mem_distinct hv)) hswapped
    rw [halike.equals] at hdiffer
    cases hdiffer
  -- Whether two values are told apart does not depend on their order.
  have hsorted : (Value.sorted (distinct values)).Pairwise fun v w => compare v w ≠ .eq := by
    refine ((Sorting.sortBy_perm _ _).pairwise_iff fun {v w} hne heq => hne ?_).mpr hdecided
    rw [← compare_swap, heq]
    rfl
  refine ((sorted_ascending (distinct values)).and hsorted).imp fun {v w} h => ?_
  obtain ⟨hle, hne⟩ := h
  cases hcompare : compare v w with
  | lt => rfl
  | eq => exact absurd hcompare hne
  | gt => exact absurd hcompare hle

end Value

end Groundplan
