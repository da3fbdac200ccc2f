import Groundplan.Library.Standard
import Groundplan.Proofs.Equality.Constructed

/-!
# Sets Are Canonical

The set of some values has an equal element for each of them and no other elements, in strictly
ascending order.  So the order and the repetitions of what it is made from leave no trace: sets
with equal elements list equal elements place by place.  A list made into a set and back is the
list without repetitions, sorted.

## Main Statements

- `Value.among_setOf`: a set has the elements that it is made from
- `Value.equals_setOf_iff`: sets are equal if each has what the other one has
- `Value.setOf_canonical`: the stored elements, and what the functions on lists and sets return
-/

namespace Groundplan

namespace Value

variable {v w : Value} {vs xs ys : List Value}

/-! ## Elements -/

theorem among_iff : v.among vs = true ↔ ∃ w ∈ vs, v.equals w = true :=
  List.any_eq_true

/-- A value that is left out equals one that is kept, or one that has come before. -/
theorem exists_mem_distinctAfter (hvalid : ∀ v ∈ vs, v.IsValid) (earlier : List Value) (hv : v ∈ vs) :
    (∃ w ∈ distinctAfter earlier vs, v.equals w = true) ∨ v.among earlier = true := by
  induction vs generalizing earlier with
  | nil => exact absurd hv List.not_mem_nil
  | cons x rest ih =>
    obtain ⟨hx, hrest⟩ := List.forall_mem_cons.mp hvalid
    unfold distinctAfter
    split
    · rename_i hamong
      rcases List.mem_cons.mp hv with rfl | hv
      · exact .inr hamong
      · exact ih hrest earlier hv
    · rcases List.mem_cons.mp hv with rfl | hv
      · exact .inl ⟨v, List.mem_cons_self, hx.alike.equals⟩
      · rcases ih hrest (x :: earlier) hv with ⟨w, hw, hequal⟩ | hamong
        · exact .inl ⟨w, List.mem_cons_of_mem x hw, hequal⟩
        · -- What has come before includes the value that was just kept.
          rw [among, List.any_cons, Bool.or_eq_true] at hamong
          rcases hamong with hequal | hamong
          · exact .inl ⟨x, List.mem_cons_self, hequal⟩
          · exact .inr hamong

/-- A set has the elements that it is made from. -/
theorem among_setOf (hv : v.IsValid) (hvalid : ∀ x ∈ xs, x.IsValid) :
    v.among (Value.sorted (distinct xs)) = v.among xs := by
  rw [Bool.eq_iff_iff, among_iff, among_iff]
  constructor
  · rintro ⟨w, hw, hequal⟩
    exact ⟨w, mem_setOf hw, hequal⟩
  · rintro ⟨x, hx, hequal⟩
    rcases exists_mem_distinctAfter hvalid [] hx with ⟨w, hw, hkept⟩ | hnone
    · refine ⟨w, Sorting.mem_sortBy.mpr hw, ?_⟩
      have halike := hv.alike_of_equals (hvalid x hx) hequal
      rw [halike.equals_congr (hvalid w (mem_of_mem_distinct hw)).alike]
      exact hkept
    · cases hnone

/-! ## Equal sets -/

/-- Every value that one set is made from equals one that the other is made from: then the stored
elements of the one have their likes among those of the other. -/
theorem exists_alike_of_among (hxs : ∀ x ∈ xs, x.IsValid) (hys : ∀ y ∈ ys, y.IsValid)
    (h : ∀ x ∈ xs, x.among ys = true) :
    ∀ v ∈ Value.sorted (distinct xs), ∃ w ∈ Value.sorted (distinct ys), Alike v w := by
  intro v hv
  have hvalid := hxs v (mem_setOf hv)
  have hamong := h v (mem_setOf hv)
  rw [← among_setOf hvalid hys, among_iff] at hamong
  obtain ⟨w, hw, hequal⟩ := hamong
  exact ⟨w, hw, hvalid.alike_of_equals (hys w (mem_setOf hw)) hequal⟩

/-- Sets with equal elements store elements that are alike, place by place. -/
theorem itemsAlike_setOf (hxs : ∀ x ∈ xs, x.IsValid) (hys : ∀ y ∈ ys, y.IsValid)
    (hfrom : ∀ x ∈ xs, x.among ys = true) (hto : ∀ y ∈ ys, y.among xs = true) :
    ItemsAlike (Value.sorted (distinct xs)) (Value.sorted (distinct ys)) := by
  have hthere := itemsAlike_of_ascending (setOf_ascending hxs) (setOf_ascending hys)
    (exists_alike_of_among hxs hys hfrom)
  have hback := itemsAlike_of_ascending (setOf_ascending hys) (setOf_ascending hxs)
    (exists_alike_of_among hys hxs hto)
  exact hthere.2 (Nat.le_antisymm hthere.1 hback.1)

theorem itemsAlike_of_equals_setOf (hxs : ∀ x ∈ xs, x.IsValid) (hys : ∀ y ∈ ys, y.IsValid)
    (h : (setOf xs).equals (setOf ys) = true) :
    ItemsAlike (Value.sorted (distinct xs)) (Value.sorted (distinct ys)) := by
  cases (isValid_setOf hxs).alike_of_equals (isValid_setOf hys) h with
  | set hitems => exact hitems

/-- Sets are equal if each has what the other one has. -/
theorem equals_setOf_iff (hxs : ∀ x ∈ xs, x.IsValid) (hys : ∀ y ∈ ys, y.IsValid) :
    (setOf xs).equals (setOf ys) = true
      ↔ (∀ x ∈ xs, x.among ys = true) ∧ ∀ y ∈ ys, y.among xs = true := by
  constructor
  · intro h
    have hitems := itemsAlike_of_equals_setOf hxs hys h
    -- Being among the one list and being among the other is the same.
    have hsame : ∀ v : Value, v.IsValid → v.among xs = v.among ys := by
      intro v hv
      rw [← among_setOf hv hxs, ← among_setOf hv hys]
      exact hv.alike.among_congr hitems
    have hself : ∀ zs : List Value, (∀ z ∈ zs, z.IsValid) → ∀ z ∈ zs, z.among zs = true :=
      fun zs hzs z hz => among_iff.mpr ⟨z, hz, (hzs z hz).alike.equals⟩
    constructor
    · intro x hx
      rw [← hsame x (hxs x hx)]
      exact hself xs hxs x hx
    · intro y hy
      rw [hsame y (hys y hy)]
      exact hself ys hys y hy
  · rintro ⟨hfrom, hto⟩
    exact (Alike.set (itemsAlike_setOf hxs hys hfrom hto)).equals

/-! ## Functions on lists and sets -/

section Calls

variable (span : Option Span)

theorem call_distinct (hknown : anyContainsUnknown xs = false) :
    Library.standard.call "distinct" [.list xs] span = .ok (.list (distinct xs)) := by
  have hcall : Library.standard.call "distinct" [.list xs] span =
      if (anyContainsUnknown xs || false) then .ok .unknown else .ok (.list (distinct xs)) := rfl
  rw [hcall, hknown]
  rfl

theorem call_toset (hknown : anyContainsUnknown xs = false) :
    Library.standard.call "toset" [.list xs] span = .ok (setOf xs) := by
  have hcall : Library.standard.call "toset" [.list xs] span =
      .ok (if anyContainsUnknown xs then .unknown else setOf xs) := rfl
  rw [hcall, hknown]
  rfl

theorem call_tolist :
    Library.standard.call "tolist" [.set xs] span = .ok (.list (Value.sorted xs)) := rfl

theorem call_length_list :
    Library.standard.call "length" [.list xs] span = .ok (.ofNat xs.length) := rfl

theorem call_length_set :
    Library.standard.call "length" [.set xs] span = .ok (.ofNat xs.length) := rfl

end Calls

/-! ## Sets are canonical -/

/-- The elements of a set are strictly ascending, and they are those that it is made from.  Two
sets are equal if each is made from equals of what the other is made from; then they list equal
elements place by place.  Where nothing is unknown, a list made into a set and back is the list
without repetitions, sorted, and as long. -/
theorem setOf_canonical (hxs : ∀ x ∈ xs, x.Constructed) (hys : ∀ y ∈ ys, y.Constructed) :
    ∃ stored stored', setOf xs = .set stored ∧ setOf ys = .set stored'
      ∧ stored.Pairwise (fun v w => compare v w = .lt)
      ∧ (∀ v : Value, v.Constructed →
          ((∃ w ∈ stored, v.equals w = true) ↔ ∃ x ∈ xs, v.equals x = true))
      ∧ ((setOf xs).equals (setOf ys) = true ↔
          (∀ x ∈ xs, ∃ y ∈ ys, x.equals y = true) ∧ ∀ y ∈ ys, ∃ x ∈ xs, y.equals x = true)
      ∧ ((setOf xs).equals (setOf ys) = true →
          List.Forall₂ (fun v w => v.equals w = true) stored stored')
      ∧ (anyContainsUnknown xs = false → ∀ span, ∃ unique,
          Library.standard.call "distinct" [.list xs] span = .ok (.list unique)
          ∧ Library.standard.call "toset" [.list xs] span = .ok (setOf xs)
          ∧ Library.standard.call "tolist" [setOf xs] span = .ok (.list (Value.sorted unique))
          ∧ Library.standard.call "length" [setOf xs] span =
              Library.standard.call "length" [.list unique] span
          ∧ Library.standard.call "length" [.list unique] span = .ok (.ofNat unique.length)) := by
  replace hxs : ∀ x ∈ xs, x.IsValid := fun x hx => (hxs x hx).isValid
  replace hys : ∀ y ∈ ys, y.IsValid := fun y hy => (hys y hy).isValid
  refine ⟨_, _, rfl, rfl, setOf_ascending hxs, ?_, ?_, ?_, ?_⟩
  · intro v hv
    rw [← among_iff, ← among_iff, among_setOf hv.isValid hxs]
  · simp only [equals_setOf_iff hxs hys, among_iff]
  · intro hequal
    have hitems := itemsAlike_iff.mp (itemsAlike_of_equals_setOf hxs hys hequal)
    exact hitems.imp fun _ _ halike => halike.equals
  · intro hknown span
    refine ⟨distinct xs, call_distinct span hknown, call_toset span hknown, ?_, ?_, ?_⟩
    · rw [setOf, call_tolist, sorted_of_ascending (setOf_ascending hxs)]
    · rw [setOf, call_length_set, call_length_list, Value.sorted, Sorting.length_sortBy]
    · exact call_length_list span

/-- A set, a map and a number, all of them written in two ways: the set is given in two orders and
with a repetition, the map with its fields in two orders, the number twice. -/
theorem setOf_canonical_nested :
    let one : Value := .number ⟨false, 1, 0⟩
    let tenTenths : Value := .number ⟨false, 10, -1⟩
    let xs := [setOf [.string "a", one, tenTenths],
      .map (Table.ofList [("size", one), ("zone", .null)]), one, tenTenths]
    let ys := [one, .map (Table.ofList [("zone", .null), ("size", tenTenths)]),
      setOf [tenTenths, .string "a"]]
    (∀ x ∈ xs, x.Constructed) ∧ (∀ y ∈ ys, y.Constructed) ∧ anyContainsUnknown xs = false
      ∧ (setOf xs).equals (setOf ys) = true
      ∧ ∃ stored stored', setOf xs = .set stored ∧ setOf ys = .set stored'
        ∧ stored.Pairwise (fun v w => compare v w = .lt)
        ∧ List.Forall₂ (fun v w => v.equals w = true) stored stored'
        ∧ Library.standard.call "length" [setOf xs] none = .ok (.ofNat 3) := by
  intro one tenTenths xs ys
  have hxs : ∀ x ∈ xs, x.Constructed := by
    have hset : Constructed (setOf [.string "a", one, tenTenths]) := .set (by simp [one, tenTenths])
    have hmap : Constructed (.map (Table.ofList [("size", one), ("zone", .null)])) :=
      .map (by simp [one])
    simp [xs, one, tenTenths, hset, hmap]
  have hys : ∀ y ∈ ys, y.Constructed := by
    have hmap : Constructed (.map (Table.ofList [("zone", .null), ("size", tenTenths)])) :=
      .map (by simp [tenTenths])
    have hset : Constructed (setOf [tenTenths, .string "a"]) := .set (by simp [tenTenths])
    simp [ys, one, hset, hmap]
  have hknown : anyContainsUnknown xs = false := by decide +kernel
  obtain ⟨stored, stored', hstored, hstored', hascending, -, hequal, hpaired, hback⟩ :=
    setOf_canonical hxs hys
  have hsame : (setOf xs).equals (setOf ys) = true := hequal.mpr (by decide +kernel)
  obtain ⟨unique, hdistinct, -, -, hlength, hcount⟩ := hback hknown none
  cases hdistinct.symm.trans (call_distinct none hknown)
  have hthree : (distinct xs).length = 3 := by decide +kernel
  rw [hthree] at hcount
  exact ⟨hxs, hys, hknown, hsame, stored, stored', hstored, hstored', hascending, hpaired hsame,
    hlength.trans hcount⟩

end Value

end Groundplan
