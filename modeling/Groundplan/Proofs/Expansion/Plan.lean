import Groundplan.Proofs.Expansion.Identity

/-!
# Plans Turn Instances into Instances

A plan between two expansions takes the keys of the earlier one apart into those that are removed
and those that are retained, and the keys of the later one into those that are added and those that
are retained, each part in the strict order of keys.  Only the one instance of a single resource is
left out of what is planned, but not out of what was there before: it is never added or retained,
and it is removed even when the resource stays as it is.

## Main Definitions

- `InstanceKey.Precedes`: the strict order of keys
- `InstancePlan.Turns`: what a plan makes of earlier keys

## Main Statements

- `Expansion.keys_ascending`: the keys of an expansion are in their strict order
- `Expansion.plan?_turns`: plans between known instances
- `Expansion.plan_turns`, `Expansion.plan_removes_single`
-/

namespace Groundplan

/-! ## Keys in strict order -/

namespace InstanceKey

/-- A key comes before another one: no key before places, places before names. -/
def Precedes (a b : Option InstanceKey) : Prop :=
  optionAtMost a b = true ∧ a ≠ b

/-- Of two keys that precede each other there are none. -/
theorem Precedes.asymm {a b : Option InstanceKey} (h : Precedes a b) : ¬ Precedes b a :=
  fun h' => h.2 (optionAtMost_antisymm a b h.1 h'.1)

end InstanceKey

open InstanceKey (Precedes)

/-- Keys in strict order are different. -/
theorem nodup_of_ascending {keys : List (Option InstanceKey)} (h : keys.Pairwise Precedes) :
    keys.Nodup :=
  h.imp And.right

/-- The same keys in strict order are in the same order. -/
theorem eq_of_ascending {keys others : List (Option InstanceKey)} (h : keys.Pairwise Precedes)
    (h' : others.Pairwise Precedes) (hsame : ∀ key, key ∈ keys ↔ key ∈ others) :
    keys = others := by
  have hperm : keys.Perm others :=
    (List.perm_ext_iff_of_nodup (nodup_of_ascending h) (nodup_of_ascending h')).mpr hsame
  exact hperm.eq_of_pairwise (fun a b _ _ hab hba => absurd hba hab.asymm) h h'

/-- Leaving out repetitions leaves none. -/
theorem nodup_eraseDups {α : Type} [BEq α] [LawfulBEq α] : ∀ xs : List α, xs.eraseDups.Nodup
  | [] => by simp
  | x :: xs => by
    rw [List.eraseDups_cons, List.nodup_cons]
    refine ⟨fun hx => ?_, nodup_eraseDups _⟩
    simpa using (List.mem_filter.mp (List.mem_eraseDups.mp hx)).2
termination_by xs => xs.length
decreasing_by
  exact Nat.lt_succ_of_le (List.length_filter_le _ _)

@[simp]
theorem mem_sortedInstanceKeys {key : Option InstanceKey} {keys : List (Option InstanceKey)} :
    key ∈ sortedInstanceKeys keys ↔ key ∈ keys := by
  rw [sortedInstanceKeys, Sorting.mem_sortBy, List.mem_eraseDups]

/-- Sorted keys are in strict order. -/
theorem sortedInstanceKeys_ascending (keys : List (Option InstanceKey)) :
    (sortedInstanceKeys keys).Pairwise Precedes := by
  have hsorted : (sortedInstanceKeys keys).Pairwise (InstanceKey.optionAtMost · · = true) :=
    Sorting.sortBy_sorted InstanceKey.optionAtMost_total InstanceKey.optionAtMost_trans _
  have hdistinct : (sortedInstanceKeys keys).Nodup :=
    (Sorting.sortBy_perm _ _).nodup_iff.mpr (nodup_eraseDups keys)
  exact hsorted.and hdistinct

/-! ## Plans -/

namespace InstancePlan

/-- A plan turns earlier keys into later ones.  Its parts are in the strict order of keys and share
nothing; what is removed and retained is what was there before, what is added and retained is what
is there later, and there is nothing to do just if the keys stay the same. -/
structure Turns (plan : InstancePlan) (before after : List (Option InstanceKey)) : Prop where
  added : plan.added.Pairwise Precedes
  removed : plan.removed.Pairwise Precedes
  retained : plan.retained.Pairwise Precedes
  added_removed : plan.added.Disjoint plan.removed
  added_retained : plan.added.Disjoint plan.retained
  removed_retained : plan.removed.Disjoint plan.retained
  earlier : (plan.removed ++ plan.retained).Perm before
  later : (plan.added ++ plan.retained).Perm after
  unchanged : plan.isUnchanged = true ↔ before = after

/-- The plan that sorts what is new, what is gone and what stays. -/
theorem turns_of_ascending {before after : List (Option InstanceKey)}
    (hbefore : before.Pairwise Precedes) (hafter : after.Pairwise Precedes) :
    Turns ⟨sortedInstanceKeys (after.filter (!before.contains ·)),
      sortedInstanceKeys (before.filter (!after.contains ·)),
      sortedInstanceKeys (after.filter (before.contains ·))⟩ before after := by
  have hadded_retained : (sortedInstanceKeys (after.filter (!before.contains ·))).Disjoint
      (sortedInstanceKeys (after.filter (before.contains ·))) := by
    rw [List.disjoint_left]
    simp +contextual
  have hremoved_retained : (sortedInstanceKeys (before.filter (!after.contains ·))).Disjoint
      (sortedInstanceKeys (after.filter (before.contains ·))) := by
    rw [List.disjoint_left]
    simp +contextual
  have hnodup : ∀ {keys others : List (Option InstanceKey)},
      (sortedInstanceKeys keys).Disjoint (sortedInstanceKeys others) →
        (sortedInstanceKeys keys ++ sortedInstanceKeys others).Nodup := by
    intro keys others hdisjoint
    rw [List.nodup_append']
    exact ⟨nodup_of_ascending (sortedInstanceKeys_ascending keys),
      nodup_of_ascending (sortedInstanceKeys_ascending others), hdisjoint⟩
  refine ⟨sortedInstanceKeys_ascending _, sortedInstanceKeys_ascending _,
    sortedInstanceKeys_ascending _, ?_, hadded_retained, hremoved_retained, ?_, ?_, ?_⟩
  · rw [List.disjoint_left]
    simp +contextual
  · rw [List.perm_ext_iff_of_nodup (hnodup hremoved_retained) (nodup_of_ascending hbefore)]
    intro key
    by_cases hlater : key ∈ after <;> simp [hlater]
  · rw [List.perm_ext_iff_of_nodup (hnodup hadded_retained) (nodup_of_ascending hafter)]
    intro key
    by_cases hearlier : key ∈ before <;> simp [hearlier]
  · -- Nothing is new and nothing is gone just if the keys are the same.
    simp only [isUnchanged, Bool.and_eq_true, List.isEmpty_iff, List.eq_nil_iff_forall_not_mem,
      mem_sortedInstanceKeys, List.mem_filter, Bool.not_eq_true', List.contains_eq_mem,
      decide_eq_false_iff_not, not_and, not_not]
    constructor
    · rintro ⟨hadded, hremoved⟩
      exact eq_of_ascending hbefore hafter fun key => ⟨hremoved key, hadded key⟩
    · rintro rfl
      exact ⟨fun _ h => h, fun _ h => h⟩

end InstancePlan

/-! ## Keys of expansions -/

namespace Expansion

open Value

variable {limit limit' : Int} {r r' : Resource} {e e' : Expansion}

/-- Elements that get names have texts. -/
theorem exists_forms_of_elementNames {address : String} {span : Option Span}
    {earlier entries : List (String × Value)} {items : List Value}
    (h : elementNames address span earlier items = .ok entries) :
    ∃ forms, List.Forall₂ HasText items forms := by
  induction items generalizing earlier with
  | nil => exact ⟨[], .nil⟩
  | cons v rest ih =>
    simp only [elementNames] at h
    split at h
    · cases h
    · next hkind =>
      obtain ⟨text, htext, h⟩ := bind_eq_ok_iff.mp h
      have hv : v.HasText text := hasText_iff.mpr ⟨by simpa using hkind, htext⟩
      split at h
      · cases h
      · obtain ⟨forms, hforms⟩ := ih h
        exact ⟨text :: forms, .cons hv hforms⟩

/-- Names in ascending order are keys in strict order. -/
theorem NamesEach.keys_ascending {entries : List (String × Value)} (h : e.NamesEach entries) :
    e.keys.Pairwise Precedes ∧ ∀ key ∈ e.keys, key.isSome = true := by
  obtain ⟨names, hkeys, hascending, _⟩ := h.names
  rw [hkeys]
  refine ⟨List.pairwise_map.mpr (hascending.imp fun hless => ?_), by simp⟩
  exact ⟨decide_eq_true hless.le, by simpa using hless.ne⟩

theorem counted_keys_ascending (address : String) (count : Nat) :
    (counted address count).keys.Pairwise Precedes
      ∧ ∀ key ∈ (counted address count).keys, key.isSome = true := by
  refine ⟨List.pairwise_map.mpr (List.pairwise_lt_range.imp fun hless => ?_), by simp [counted]⟩
  exact ⟨decide_eq_true (Int.ofNat_le.mpr hless.le), by simpa using hless.ne⟩

/-- The keys of known instances are in strict order, and there is no instance without a key. -/
theorem ofValue_keys_ascending {address : String} {span : Option Span} {v : Value}
    (hvalid : v.IsValid) (h : ofValue limit address v span = .ok e)
    (hknown : e.isDeferred = false) :
    e.mode ≠ .single ∧ e.keys.Pairwise Precedes ∧ ∀ key ∈ e.keys, key.isSome = true := by
  cases v with
  | null | bool | string | list => cases h
  | unknown =>
    cases h
    cases hknown
  | number n =>
    simp only [ofValue] at h
    split at h
    · obtain ⟨_, _, h⟩ := bind_eq_ok_iff.mp h
      obtain ⟨_, hrefused, _⟩ := bind_eq_ok_iff.mp h
      cases hrefused
    · obtain ⟨_, _, h⟩ := bind_eq_ok_iff.mp h
      cases h
      exact ⟨by simp [counted], counted_keys_ascending address _⟩
  | set items =>
    have hset := h
    simp only [ofValue] at h
    split at h
    · cases h
      cases hknown
    · obtain ⟨entries, hentries, _⟩ := bind_eq_ok_iff.mp h
      obtain ⟨forms, hforms⟩ := exists_forms_of_elementNames hentries
      have hnames := NamesEach.of_items hforms hset
      exact ⟨by simp [hnames.mode], hnames.keys_ascending⟩
  | map fields =>
    have hnames : e.NamesEach fields := .of_fields (.inl rfl) hvalid h
    exact ⟨by simp [hnames.mode], hnames.keys_ascending⟩
  | object fields =>
    have hnames : e.NamesEach fields := .of_fields (.inr rfl) hvalid h
    exact ⟨by simp [hnames.mode], hnames.keys_ascending⟩

/-- The keys of an expansion are in strict order, and only the instance of a single resource has no
key. -/
theorem keys_ascending {source : Option Value} (hsource : ∀ v ∈ source, v.Constructed)
    (h : Expansion.of limit r source = .ok e) (hknown : e.isDeferred = false) :
    e.keys.Pairwise Precedes ∧ (e.mode = .single ∧ e.keys = [none]
      ∨ e.mode ≠ .single ∧ ∀ key ∈ e.keys, key.isSome = true) := by
  cases source with
  | none =>
    cases h
    exact ⟨List.pairwise_singleton _ _, .inl ⟨rfl, rfl⟩⟩
  | some v =>
    obtain ⟨hmode, hascending, hkeyed⟩ := ofValue_keys_ascending (hsource v rfl).isValid h hknown
    exact ⟨hascending, .inr ⟨hmode, hkeyed⟩⟩

/-! ## Plans between expansions -/

/-- Between known instances there is a plan, for all keys but that of a single resource. -/
theorem plan?_turns (hbefore : e.keys.Pairwise Precedes) (hafter : e'.keys.Pairwise Precedes)
    (hknown : e'.isDeferred = false) :
    ∃ plan, e'.plan? e.keys = some plan ∧ plan.Turns e.keys (e'.keys.filter Option.isSome) := by
  refine ⟨_, ?_, InstancePlan.turns_of_ascending hbefore (hafter.filter _)⟩
  rw [plan?, hknown]
  rfl

/-- The plan between two expansions whose instances are known turns the keys of the first one into
the keys of the second one, unless the second one is that of a single resource.  The key of a single
resource is not among the planned ones. -/
theorem plan_turns {source source' : Option Value} (hsource : ∀ v ∈ source, v.Constructed)
    (hsource' : ∀ v ∈ source', v.Constructed) (h : Expansion.of limit r source = .ok e)
    (h' : Expansion.of limit' r' source' = .ok e') (hknown : e.isDeferred = false)
    (hknown' : e'.isDeferred = false) :
    ∃ plan, e'.plan? e.keys = some plan ∧ plan.Turns e.keys (e'.keys.filter Option.isSome)
      ∧ (plan.Turns e.keys e'.keys ↔ e'.mode ≠ .single) := by
  obtain ⟨hbefore, _⟩ := keys_ascending hsource h hknown
  obtain ⟨hafter, hkeys⟩ := keys_ascending hsource' h' hknown'
  obtain ⟨plan, hplan, hturns⟩ := plan?_turns hbefore hafter hknown'
  refine ⟨plan, hplan, hturns, ?_⟩
  rcases hkeys with ⟨hmode, hkeys⟩ | ⟨hmode, hkeyed⟩
  · -- What would be added or retained is left out of what is planned.
    refine iff_of_false (fun hfull => ?_) (by simp [hmode])
    have hperm := hturns.later.symm.trans hfull.later
    simp [hkeys] at hperm
  · refine iff_of_true ?_ hmode
    rwa [List.filter_eq_self.mpr hkeyed] at hturns

/-- Of three named instances one is gone later. -/
theorem plan_turns_names :
    let r : Resource := ⟨"disk", "data", [], none, [], .none, [], none⟩
    let names : Value := .set [.string "a", .string "b", .string "c"]
    let others : Value := .map [("c", .null), ("a", .null)]
    let plan : InstancePlan := ⟨[], [some (.name "b")], [some (.name "a"), some (.name "c")]⟩
    ∃ e e', Expansion.of 0 r (some names) = .ok e ∧ Expansion.of 2 r (some others) = .ok e'
      ∧ e'.plan? e.keys = some plan ∧ plan.Turns e.keys e'.keys := by
  intro r names others plan
  have hnames : names.Constructed := by
    refine IsValid.constructed ?_
    simp only [names, IsValid, ItemsValid, and_true]
    decide +kernel
  have hothers : others.Constructed := by
    refine IsValid.constructed ?_
    simp [others, IsValid, FieldsValid, Table.keys]
  let e := named r.address [("a", .string "a"), ("b", .string "b"), ("c", .string "c")]
  let e' := named r.address [("c", .null), ("a", .null)]
  have he : Expansion.of 0 r (some names) = .ok e := rfl
  have he' : Expansion.of 2 r (some others) = .ok e' := rfl
  have hplan : e'.plan? e.keys = some plan := by
    decide +kernel
  obtain ⟨found, hfound, _, hturns⟩ :=
    plan_turns (by simpa using hnames) (by simpa using hothers) he he' rfl rfl
  cases hfound.symm.trans hplan
  exact ⟨e, e', he, he', hplan, hturns.mpr (by decide)⟩

/-- A single resource that stays as it is loses its only instance. -/
theorem plan_removes_single :
    let r : Resource := ⟨"disk", "data", [], none, [], .none, [], none⟩
    ∃ e, Expansion.of 0 r none = .ok e ∧ e.isDeferred = false
      ∧ e.plan? e.keys = some ⟨[], [none], []⟩
      ∧ InstancePlan.isUnchanged ⟨[], [none], []⟩ = false
      ∧ ¬ InstancePlan.Turns ⟨[], [none], []⟩ e.keys e.keys := by
  intro r
  refine ⟨single r.address, rfl, rfl, rfl, rfl, fun h => ?_⟩
  have hkept := h.later.length_eq
  cases hkept

end Expansion

end Groundplan
