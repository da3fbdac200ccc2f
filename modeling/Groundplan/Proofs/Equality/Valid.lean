import Groundplan.Proofs.Equality.Order

/-!
# Equal Values Are Alike

The constructors of values keep the keys of a map or object different and the elements of a set in
strictly ascending order.  Of values that keep these invariants, those that are structurally equal
are the ones that are alike: a set in ascending order has one place only for each element.

## Main Definitions

- `Value.IsValid`: the invariants hold at every depth

## Main Statements

- `Value.equals_iff_alike`
-/

namespace Groundplan

namespace Value

variable {v w : Value} {vs ws : List Value} {fs gs : List (String × Value)}

mutual

/-- The keys of maps and objects are different and the elements of sets ascend, at every depth. -/
def IsValid : Value → Prop
  | .list items => ItemsValid items
  | .set items => items.Pairwise (fun v w => compare v w = .lt) ∧ ItemsValid items
  | .map fields => (Table.keys fields).Nodup ∧ FieldsValid fields
  | .object fields => (Table.keys fields).Nodup ∧ FieldsValid fields
  | .null | .bool _ | .number _ | .string _ | .unknown => True

/-- The invariants hold of some values. -/
def ItemsValid : List Value → Prop
  | [] => True
  | v :: vs => IsValid v ∧ ItemsValid vs

/-- The invariants hold of the values of some fields. -/
def FieldsValid : List (String × Value) → Prop
  | [] => True
  | (_, v) :: fields => IsValid v ∧ FieldsValid fields

end

theorem itemsValid_iff : ItemsValid vs ↔ ∀ v ∈ vs, v.IsValid := by
  induction vs with
  | nil => simp [ItemsValid]
  | cons v vs ih => rw [ItemsValid, ih, List.forall_mem_cons]

theorem fieldsValid_iff : FieldsValid fs ↔ ∀ f ∈ fs, f.2.IsValid := by
  induction fs with
  | nil => simp [FieldsValid]
  | cons f fs ih => rw [FieldsValid, ih, List.forall_mem_cons]

/-! ## Reflexivity -/

mutual

theorem IsValid.alike {v : Value} (hv : v.IsValid) : Alike v v := by
  match v with
  | .null => exact .null
  | .unknown => exact .unknown
  | .bool b => exact .bool b
  | .number n => exact .number rfl
  | .string s => exact .string s
  | .list vs =>
    simp only [IsValid] at hv
    exact .list hv.alike
  | .set vs =>
    simp only [IsValid] at hv
    exact .set hv.2.alike
  | .map fs =>
    simp only [IsValid] at hv
    exact .map hv.1 hv.2.alike (List.Perm.refl fs)
  | .object fs =>
    simp only [IsValid] at hv
    exact .object hv.1 hv.2.alike (List.Perm.refl fs)

theorem ItemsValid.alike {vs : List Value} (hvs : ItemsValid vs) : ItemsAlike vs vs := by
  match vs with
  | [] => exact .nil
  | v :: vs =>
    simp only [ItemsValid] at hvs
    exact .cons hvs.1.alike hvs.2.alike

theorem FieldsValid.alike {fs : List (String × Value)} (hfs : FieldsValid fs) :
    FieldsAlike fs fs := by
  match fs with
  | [] => exact .nil
  | (_, v) :: fs =>
    simp only [FieldsValid] at hfs
    exact .cons hfs.1.alike hfs.2.alike

end

/-! ## Alike values are equal -/

mutual

/-- Values that are alike are structurally equal. -/
theorem Alike.equals {v w : Value} (h : Alike v w) : v.equals w = true := by
  match h with
  | .null | .unknown => simp only [Value.equals]
  | .bool _ | .string _ => simp only [Value.equals, beq_self_eq_true]
  | .number hab =>
    simp only [Value.equals]
    exact Decimal.equals_iff.mpr hab
  | .list hitems =>
    simp only [Value.equals]
    exact hitems.equalItems
  | .set hitems =>
    simp only [Value.equals, hitems.length_eq, beq_self_eq_true, Bool.true_and]
    exact hitems.eachAmong fun _ hw => hw
  | .map hdistinct hfields hperm | .object hdistinct hfields hperm =>
    have hsimilar := hfields.similar hdistinct hperm
    simp only [Value.equals, hsimilar.length_eq, beq_self_eq_true, Bool.true_and]
    exact hfields.eachFieldAmong fun key w hw =>
      (Table.mem_iff_get?_eq_some hsimilar.distinct_right).mp (hperm.mem_iff.mp hw)

theorem ItemsAlike.equalItems {vs ws : List Value} (h : ItemsAlike vs ws) :
    Value.equalItems vs ws = true := by
  match h with
  | .nil => simp only [Value.equalItems]
  | .cons hhead htail => simp only [Value.equalItems, hhead.equals, htail.equalItems, Bool.and_self]

theorem ItemsAlike.eachAmong {vs ws : List Value} (h : ItemsAlike vs ws) {others : List Value}
    (hsub : ∀ w ∈ ws, w ∈ others) : Value.eachAmong vs others = true := by
  match h with
  | .nil => simp only [Value.eachAmong]
  | .cons hhead htail =>
    obtain ⟨hw, hrest⟩ := List.forall_mem_cons.mp hsub
    simp only [Value.eachAmong, Bool.and_eq_true]
    exact ⟨List.any_eq_true.mpr ⟨_, hw, hhead.equals⟩, htail.eachAmong hrest⟩

theorem FieldsAlike.eachFieldAmong {fs gs : List (String × Value)} (h : FieldsAlike fs gs)
    {others : List (String × Value)}
    (hget : ∀ key w, (key, w) ∈ gs → Table.get? others key = some w) :
    Value.eachFieldAmong fs others = true := by
  match h with
  | .nil => simp only [Value.eachFieldAmong]
  | .cons hhead htail =>
    simp only [Value.eachFieldAmong, hget _ _ List.mem_cons_self, hhead.equals, Bool.true_and]
    exact htail.eachFieldAmong fun key w hw => hget key w (List.mem_cons_of_mem _ hw)

end

/-! ## Equal values are alike -/

/-- In strictly ascending order, a value that has its like has it at one place only, and there are
no more values than likes. -/
theorem itemsAlike_of_ascending (hvs : vs.Pairwise fun v w => compare v w = .lt)
    (hws : ws.Pairwise fun v w => compare v w = .lt) (h : ∀ v ∈ vs, ∃ w ∈ ws, Alike v w) :
    vs.length ≤ ws.length ∧ (vs.length = ws.length → ItemsAlike vs ws) := by
  induction ws generalizing vs with
  | nil =>
    cases vs with
    | nil => exact ⟨le_rfl, fun _ => .nil⟩
    | cons v vs =>
      obtain ⟨w, hw, _⟩ := h v List.mem_cons_self
      exact absurd hw List.not_mem_nil
  | cons w ws ih =>
    cases vs with
    | nil => exact ⟨Nat.zero_le _, fun hlength => nomatch hlength⟩
    | cons v vs =>
      obtain ⟨hvless, hvs'⟩ := List.pairwise_cons.mp hvs
      obtain ⟨hwless, hws'⟩ := List.pairwise_cons.mp hws
      obtain ⟨x, hx, hvx⟩ := h v List.mem_cons_self
      -- The likes of the later values come behind the first one.
      have hrest : ∀ u ∈ vs, ∃ y ∈ ws, Alike u y := by
        intro u hu
        obtain ⟨y, hy, huy⟩ := h u (List.mem_cons_of_mem v hu)
        rcases List.mem_cons.mp hy with rfl | hy
        · have hxy : compare x y = .lt := by rw [← hvx.compare_congr huy, hvless u hu]
          rcases List.mem_cons.mp hx with rfl | hx
          · rw [compare_self] at hxy
            cases hxy
          · have hyx := hwless x hx
            rw [← compare_swap, hxy] at hyx
            cases hyx
        · exact ⟨y, hy, huy⟩
      rcases List.mem_cons.mp hx with rfl | hx
      · obtain ⟨hle, halike⟩ := ih hvs' hws' hrest
        exact ⟨Nat.succ_le_succ hle,
          fun hlength => .cons hvx (halike (Nat.succ.inj hlength))⟩
      · -- Then the first value of the other list is nobody's like.
        have hlength := (ih hvs hws' (List.forall_mem_cons.mpr ⟨⟨x, hx, hvx⟩, hrest⟩)).1
        simp only [List.length_cons] at hlength ⊢
        exact ⟨by omega, fun heq => by omega⟩

/-- Fields that all have their like under the same key, in a table with as many fields. -/
theorem similar_of_eachField (hfs : (Table.keys fs).Nodup) (hgs : (Table.keys gs).Nodup)
    (hlength : fs.length = gs.length)
    (h : ∀ f ∈ fs, ∃ w, Table.get? gs f.1 = some w ∧ Alike f.2 w) :
    Table.Similar Alike fs gs := by
  have hsub : Table.keys fs ⊆ Table.keys gs := by
    intro key hkey
    obtain ⟨f, hf, rfl⟩ := List.mem_map.mp hkey
    obtain ⟨w, hw, _⟩ := h f hf
    exact (Table.has_iff_mem_keys gs f.1).mp (by simp [Table.has, hw])
  have hperm : (Table.keys fs).Perm (Table.keys gs) :=
    (List.subperm_of_subset hfs hsub).perm_of_length_le (by simp [Table.keys, hlength])
  refine Table.similar_of_get? hfs hgs fun key => ?_
  cases hfound : Table.get? fs key with
  | some v =>
    obtain ⟨w, hw, hvw⟩ := h (key, v) (Table.mem_of_get?_eq_some hfound)
    rw [hw]
    exact .some hvw
  | none =>
    have habsent : Table.get? gs key = none := by
      rw [← Option.not_isSome_iff_eq_none]
      intro hsome
      have hkey := hperm.mem_iff.mpr ((Table.has_iff_mem_keys gs key).mp hsome)
      rw [← Table.has_iff_mem_keys, Table.has, hfound] at hkey
      cases hkey
    rw [habsent]
    exact .none

mutual

/-- Values that keep the invariants are alike if they are structurally equal. -/
theorem IsValid.alike_of_equals {v w : Value} (hv : v.IsValid) (hw : w.IsValid)
    (h : v.equals w = true) : Alike v w := by
  match v with
  | .null => cases w <;> simp [Value.equals] at h; exact .null
  | .unknown => cases w <;> simp [Value.equals] at h; exact .unknown
  | .bool b => cases w <;> simp [Value.equals] at h; exact h ▸ .bool b
  | .string s => cases w <;> simp [Value.equals] at h; exact h ▸ .string s
  | .number n => cases w <;> simp [Value.equals] at h; exact .number (Decimal.equals_iff.mp h)
  | .list vs =>
    cases w <;> simp [Value.equals] at h
    simp only [IsValid] at hv hw
    exact .list (hv.alike_of_equalItems hw h)
  | .set vs =>
    cases w <;> simp [Value.equals] at h
    simp only [IsValid] at hv hw
    exact .set ((itemsAlike_of_ascending hv.1 hw.1
      (hv.2.exists_alike (itemsValid_iff.mp hw.2) h.2)).2 h.1)
  | .map fs =>
    cases w <;> simp [Value.equals] at h
    simp only [IsValid] at hv hw
    exact alike_map (similar_of_eachField hv.1 hw.1 h.1
      (hv.2.exists_alike (fieldsValid_iff.mp hw.2) h.2))
  | .object fs =>
    cases w <;> simp [Value.equals] at h
    simp only [IsValid] at hv hw
    exact alike_object (similar_of_eachField hv.1 hw.1 h.1
      (hv.2.exists_alike (fieldsValid_iff.mp hw.2) h.2))

theorem ItemsValid.alike_of_equalItems {vs ws : List Value} (hvs : ItemsValid vs)
    (hws : ItemsValid ws) (h : Value.equalItems vs ws = true) : ItemsAlike vs ws := by
  match vs, ws with
  | [], [] => exact .nil
  | [], _ :: _ | _ :: _, [] => simp [Value.equalItems] at h
  | v :: vs, w :: ws =>
    simp only [ItemsValid] at hvs hws
    simp only [Value.equalItems, Bool.and_eq_true] at h
    exact .cons (hvs.1.alike_of_equals hws.1 h.1) (hvs.2.alike_of_equalItems hws.2 h.2)

theorem ItemsValid.exists_alike {vs ws : List Value} (hvs : ItemsValid vs)
    (hws : ∀ w ∈ ws, w.IsValid) (h : Value.eachAmong vs ws = true) :
    ∀ v ∈ vs, ∃ w ∈ ws, Alike v w := by
  match vs with
  | [] => exact fun v hv => absurd hv List.not_mem_nil
  | v :: vs =>
    simp only [ItemsValid] at hvs
    simp only [Value.eachAmong, Bool.and_eq_true, List.any_eq_true] at h
    obtain ⟨⟨w, hw, hvw⟩, hrest⟩ := h
    exact List.forall_mem_cons.mpr
      ⟨⟨w, hw, hvs.1.alike_of_equals (hws w hw) hvw⟩, hvs.2.exists_alike hws hrest⟩

theorem FieldsValid.exists_alike {fs gs : List (String × Value)} (hfs : FieldsValid fs)
    (hgs : ∀ g ∈ gs, g.2.IsValid) (h : Value.eachFieldAmong fs gs = true) :
    ∀ f ∈ fs, ∃ w, Table.get? gs f.1 = some w ∧ Alike f.2 w := by
  match fs with
  | [] => exact fun f hf => absurd hf List.not_mem_nil
  | (key, v) :: fs =>
    simp only [FieldsValid] at hfs
    simp only [Value.eachFieldAmong, Bool.and_eq_true] at h
    obtain ⟨hhead, hrest⟩ := h
    refine List.forall_mem_cons.mpr ⟨?_, hfs.2.exists_alike hgs hrest⟩
    cases hfound : Table.get? gs key with
    | none => simp [hfound] at hhead
    | some w =>
      simp only [hfound] at hhead
      have hmem := Table.mem_of_get?_eq_some hfound
      exact ⟨w, rfl, hfs.1.alike_of_equals (hgs _ hmem) hhead⟩

end

/-- Of values that keep the invariants, those that are structurally equal are alike. -/
theorem equals_iff_alike (hv : v.IsValid) (hw : w.IsValid) : v.equals w = true ↔ Alike v w :=
  ⟨hv.alike_of_equals hw, Alike.equals⟩

end Value

end Groundplan
