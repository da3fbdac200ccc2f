import Groundplan.Proofs.Equality.Total

/-!
# Values Built by the Constructors

Tables are built by storing one entry after another and sets by leaving out repetitions and
sorting, so values that are built keep the invariants: different keys, and elements in strictly
ascending order.  Conversely every value that keeps the invariants can be built, since storing
different keys and sorting what ascends change nothing.  On these values the order is total, and
what it leaves undecided is what is structurally equal.

## Main Definitions

- `Value.Constructed`: values that are built by the constructors

## Main Statements

- `Value.setOf_of_ascending`: the set of ascending values has them as they are
- `Value.constructed_iff_isValid`: building values and keeping the invariants is the same
- `Value.compare_total`: the order is total, and equality is what it leaves undecided
-/

namespace Groundplan

namespace Value

/-- Values that are built by the constructors from values that are built by them. -/
inductive Constructed : Value → Prop where
  | null : Constructed .null
  | unknown : Constructed .unknown
  | bool (b : Bool) : Constructed (.bool b)
  | number (n : Decimal) : Constructed (.number n)
  | string (s : String) : Constructed (.string s)
  | list {items : List Value} : (∀ v ∈ items, Constructed v) → Constructed (.list items)
  /-- Repetitions are left out of a set, and the other elements are sorted. -/
  | set {items : List Value} : (∀ v ∈ items, Constructed v) → Constructed (setOf items)
  /-- Of entries with the same key the last one is kept, in the place of the first one. -/
  | map {entries : List (String × Value)} :
      (∀ e ∈ entries, Constructed e.2) → Constructed (.map (Table.ofList entries))
  | object {entries : List (String × Value)} :
      (∀ e ∈ entries, Constructed e.2) → Constructed (.object (Table.ofList entries))

attribute [simp] Constructed.null Constructed.unknown Constructed.bool Constructed.number
  Constructed.string

variable {v w : Value} {vs : List Value}

/-! ## The order and equality -/

/-- What is structurally equal is what the order leaves undecided. -/
theorem IsValid.compare_eq_iff (hv : v.IsValid) (hw : w.IsValid) :
    compare v w = .eq ↔ v.equals w = true := by
  rw [equals_iff_alike hv hw]
  constructor
  · exact hv.alike_of_compare_eq hw
  · intro halike
    rw [halike.compare_congr hw.alike, compare_self]

/-! ## What is built keeps the invariants -/

theorem isValid_setOf (h : ∀ v ∈ vs, v.IsValid) : (setOf vs).IsValid := by
  simp only [setOf, IsValid, itemsValid_iff]
  exact ⟨setOf_ascending h, fun v hv => h v (mem_setOf hv)⟩

theorem Constructed.isValid (h : Constructed v) : v.IsValid := by
  induction h with
  | null | unknown | bool | number | string => simp only [IsValid]
  | list _ ih =>
    simp only [IsValid]
    exact itemsValid_iff.mpr ih
  | set _ ih => exact isValid_setOf ih
  | map _ ih | object _ ih =>
    simp only [IsValid, fieldsValid_iff]
    exact ⟨Table.nodup_keys_ofList _, fun e he => ih e (Table.mem_of_mem_ofList he)⟩

/-! ## What keeps the invariants is built -/

/-- Sorting leaves ascending values as they are. -/
theorem sorted_of_ascending (hascending : vs.Pairwise fun v w => compare v w = .lt) :
    Value.sorted vs = vs := by
  apply Sorting.sortBy_of_sorted
  apply hascending.imp
  intro v w hless
  simp [hless]

/-- Of ascending values none equals an earlier one. -/
theorem distinctAfter_of_ascending {earlier : List Value} (hvalid : ∀ v ∈ vs, v.IsValid)
    (hearlier : ∀ v ∈ earlier, v.IsValid)
    (hascending : (earlier.reverse ++ vs).Pairwise fun v w => compare v w = .lt) :
    distinctAfter earlier vs = vs := by
  induction vs generalizing earlier with
  | nil => rfl
  | cons v vs ih =>
    obtain ⟨hv, hvs⟩ := List.forall_mem_cons.mp hvalid
    have hfresh : v.among earlier = false := by
      rw [among, List.any_eq_false]
      intro w hw hequal
      -- Equal values are left undecided, but every earlier value is below this one.
      have hless := (List.pairwise_append.mp hascending).2.2 w (by simpa using hw) v (by simp)
      have hundecided := (hv.compare_eq_iff (hearlier w hw)).mpr hequal
      rw [← compare_swap, hless] at hundecided
      cases hundecided
    have hrest : distinctAfter (v :: earlier) vs = vs := by
      apply ih hvs
      · exact List.forall_mem_cons.mpr ⟨hv, hearlier⟩
      · simpa using hascending
    rw [distinctAfter, hfresh]
    simp [hrest]

/-- The set of ascending values has them as they are. -/
theorem setOf_of_ascending (hvalid : ∀ v ∈ vs, v.IsValid)
    (hascending : vs.Pairwise fun v w => compare v w = .lt) : setOf vs = .set vs := by
  have hdistinct : distinct vs = vs :=
    distinctAfter_of_ascending hvalid (by simp) (by simpa using hascending)
  rw [setOf, hdistinct, sorted_of_ascending hascending]

mutual

theorem IsValid.constructed {v : Value} (h : v.IsValid) : Constructed v := by
  match v with
  | .null => exact .null
  | .unknown => exact .unknown
  | .bool b => exact .bool b
  | .number n => exact .number n
  | .string s => exact .string s
  | .list vs =>
    simp only [IsValid] at h
    exact .list h.constructed
  | .set vs =>
    simp only [IsValid] at h
    rw [← setOf_of_ascending (itemsValid_iff.mp h.2) h.1]
    exact .set h.2.constructed
  | .map fs =>
    simp only [IsValid] at h
    rw [← Table.ofList_of_nodup h.1]
    exact .map h.2.constructed
  | .object fs =>
    simp only [IsValid] at h
    rw [← Table.ofList_of_nodup h.1]
    exact .object h.2.constructed

theorem ItemsValid.constructed {vs : List Value} (h : ItemsValid vs) :
    ∀ v ∈ vs, Constructed v := by
  match vs with
  | [] => exact fun v hv => absurd hv List.not_mem_nil
  | v :: vs =>
    simp only [ItemsValid] at h
    exact List.forall_mem_cons.mpr ⟨h.1.constructed, h.2.constructed⟩

theorem FieldsValid.constructed {fs : List (String × Value)} (h : FieldsValid fs) :
    ∀ e ∈ fs, Constructed e.2 := by
  match fs with
  | [] => exact fun e he => absurd he List.not_mem_nil
  | (_, v) :: fs =>
    simp only [FieldsValid] at h
    exact List.forall_mem_cons.mpr ⟨h.1.constructed, h.2.constructed⟩

end

/-- The values that are built by the constructors are those that keep the invariants. -/
theorem constructed_iff_isValid : Constructed v ↔ v.IsValid :=
  ⟨Constructed.isValid, IsValid.constructed⟩

/-! ## The order is total -/

/-- The order of the values that are built is total: compared the other way round, it is reversed;
it is transitive; and what it leaves undecided is what is structurally equal. -/
theorem compare_total {u v : Value} (hu : Constructed u) (hv : Constructed v) (w : Value) :
    compare v u = (compare u v).swap
      ∧ (compare u v ≠ .gt → compare v w ≠ .gt → compare u w ≠ .gt)
      ∧ (compare u v = .eq ↔ u.equals v = true) :=
  ⟨(compare_swap u v).symm, compare_trans, hu.isValid.compare_eq_iff hv.isValid⟩

/-- Two maps with the same fields: a number and a set are written in two ways, and the one map is
given a key twice.  A third map, whose key is a later one, is not below them. -/
theorem compare_total_map :
    let one : Value := .number ⟨false, 1, 0⟩
    let tenTenths : Value := .number ⟨false, 10, -1⟩
    let u : Value := .map (Table.ofList
      [("size", .null), ("tags", setOf [.string "a", one, tenTenths]), ("size", one)])
    let v : Value := .map (Table.ofList
      [("tags", setOf [tenTenths, .string "a"]), ("size", tenTenths)])
    let w : Value := .map (Table.ofList [("zone", .null)])
    Constructed u ∧ Constructed v ∧ compare v u = .eq ∧ compare u w ≠ .gt ∧ u.equals v = true := by
  intro one tenTenths u v w
  have hu : Constructed u := by
    have htags : Constructed (setOf [.string "a", one, tenTenths]) :=
      .set (by simp [one, tenTenths])
    exact .map (by simp [one, htags])
  have hv : Constructed v := by
    have htags : Constructed (setOf [tenTenths, .string "a"]) := .set (by simp [tenTenths])
    exact .map (by simp [tenTenths, htags])
  obtain ⟨hswap, htrans, hequal⟩ := compare_total hu hv w
  have hsame : compare u v = .eq := by decide +kernel
  have hbelow : compare v w = .lt := by decide +kernel
  rw [hsame] at hswap
  refine ⟨hu, hv, hswap, ?_, hequal.mp hsame⟩
  apply htrans
  · simp [hsame]
  · simp [hbelow]

end Value

end Groundplan
