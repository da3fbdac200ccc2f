import Groundplan.Proofs.Equality.Canonical
import Groundplan.Proofs.Safety.WellFormed

/-!
# Conversion Is a Retraction

A value conforms to a type if it has the type's shape at every depth; null and unknown conform to
every type.  What a conversion returns conforms to the type, and a conforming value is converted to
an equal one.  So converting twice is converting once, as long as no object type gives an attribute
twice: of a repeated attribute only the last type decides what conforms, but the field has to be
converted to the other ones, too.

## Main Definitions

- `Constraint.Unrepeated`: no object type gives an attribute twice
- `Value.Conforms`: values that have the shape of a type
- `Value.Inhabits`: conforming values that keep the invariants

## Main Statements

- `Value.convert_returns`: what a conversion returns conforms to the type
- `Value.convert_of_conforms`: what conforms is converted to its like
- `Value.convert_retraction`
-/

namespace Groundplan

/-- No object type in a constraint, at any depth, gives an attribute twice. -/
inductive Constraint.Unrepeated : Constraint → Prop where
  | string : Unrepeated .string
  | number : Unrepeated .number
  | bool : Unrepeated .bool
  | any : Unrepeated .any
  | list {element : Constraint} : Unrepeated element → Unrepeated (.list element)
  | set {element : Constraint} : Unrepeated element → Unrepeated (.set element)
  | map {element : Constraint} : Unrepeated element → Unrepeated (.map element)
  | object {attributes : List (String × Constraint)} :
      (Table.keys attributes).Nodup → (∀ a ∈ attributes, Unrepeated a.2) →
      Unrepeated (.object attributes)

namespace Value

/-- A value has the shape of a type. -/
inductive Conforms : Value → Constraint → Prop where
  | null (t : Constraint) : Conforms .null t
  | unknown (t : Constraint) : Conforms .unknown t
  | any (v : Value) : Conforms v .any
  | string (s : String) : Conforms (.string s) .string
  | number (n : Decimal) : Conforms (.number n) .number
  | bool (b : Bool) : Conforms (.bool b) .bool
  | list {items : List Value} {element : Constraint} :
      (∀ v ∈ items, Conforms v element) → Conforms (.list items) (.list element)
  /-- A set with unknown in it conforms to no set type, because its elements may turn out equal. -/
  | set {items : List Value} {element : Constraint} :
      anyContainsUnknown items = false → (∀ v ∈ items, Conforms v element) →
      Conforms (.set items) (.set element)
  | map {fields : List (String × Value)} {element : Constraint} :
      (∀ f ∈ fields, Conforms f.2 element) → Conforms (.map fields) (.map element)
  /-- An object has exactly the attributes that its type gives; of a repeated attribute the last
  type counts. -/
  | object {fields : List (String × Value)} {attributes : List (String × Constraint)} :
      (∀ key, key ∈ Table.keys fields ↔ key ∈ Table.keys attributes) →
      (∀ f ∈ fields, ∀ t, Table.get? (Table.ofList attributes) f.1 = some t → Conforms f.2 t) →
      Conforms (.object fields) (.object attributes)

variable {v : Value} {t : Constraint}

/-- A value has the shape of a type and keeps the invariants of values. -/
structure Inhabits (v : Value) (t : Constraint) : Prop where
  conforms : v.Conforms t
  isValid : v.IsValid

/-- A value without parts keeps the invariants. -/
theorem inhabits_plain (hplain : v.isCollection = false) (h : v.Conforms t) : v.Inhabits t :=
  ⟨h, (isWellFormed_plain hplain).1⟩

theorem inhabits_of_blank (h : (v.isNull || v.isUnknown) = true) (t : Constraint) :
    v.Inhabits t := by
  cases v with
  | null => exact inhabits_plain rfl (.null t)
  | unknown => exact inhabits_plain rfl (.unknown t)
  | bool | number | string | list | set | map | object => cases h

theorem inhabits_list {items : List Value} {element : Constraint}
    (h : ∀ v ∈ items, v.Inhabits element) : (Value.list items).Inhabits (.list element) := by
  refine ⟨.list fun v hv => (h v hv).conforms, ?_⟩
  simp only [IsValid, itemsValid_iff]
  exact fun v hv => (h v hv).isValid

/-- The set of some values of a type, if nothing in them is unknown. -/
theorem inhabits_setOf {items : List Value} {element : Constraint}
    (hknown : anyContainsUnknown items = false) (h : ∀ v ∈ items, v.Inhabits element) :
    (setOf items).Inhabits (.set element) := by
  refine ⟨.set ?_ fun v hv => (h v (mem_setOf hv)).conforms,
    isValid_setOf fun v hv => (h v hv).isValid⟩
  -- What is kept in the set is among what it is made from.
  rw [anyContainsUnknown_eq_any, List.any_eq_false] at hknown ⊢
  exact fun v hv => hknown v (mem_setOf hv)

theorem inhabits_map {fields : List (String × Value)} {element : Constraint}
    (hdistinct : (Table.keys fields).Nodup) (h : ∀ f ∈ fields, f.2.Inhabits element) :
    (Value.map fields).Inhabits (.map element) := by
  refine ⟨.map fun f hf => (h f hf).conforms, ?_⟩
  simp only [IsValid, fieldsValid_iff]
  exact ⟨hdistinct, fun f hf => (h f hf).isValid⟩

/-- Null and unknown are converted to themselves. -/
theorem convert_of_blank (h : (v.isNull || v.isUnknown) = true) (t : Constraint) :
    v.convert t = .ok v := by
  cases t with
  | any => rw [convert]
  | string | number | bool =>
    rw [convert]
    cases v with
    | null | unknown => rfl
    | bool | number | string | list | set | map | object => cases h
  | list | set | map | object => rw [convert, if_pos h]

theorem isValid_of_items {items : List Value} (hv : v.IsValid) (h : v.items? = some items) :
    ∀ x ∈ items, x.IsValid := by
  cases v with
  | list vs =>
    cases h
    simpa only [IsValid, itemsValid_iff] using hv
  | set vs =>
    cases h
    simp only [IsValid, itemsValid_iff] at hv
    exact hv.2
  | null | unknown | bool | number | string | map | object => cases h

theorem isValid_of_fields {fields : List (String × Value)} (hv : v.IsValid)
    (h : v.fields? = some fields) :
    (Table.keys fields).Nodup ∧ ∀ f ∈ fields, f.2.IsValid := by
  cases v with
  | map fs | object fs =>
    cases h
    simpa only [IsValid, fieldsValid_iff] using hv
  | null | unknown | bool | number | string | list | set => cases h

/-! ## What a conversion returns -/

/-- A failure that is told in other words returns nothing either. -/
theorem within_returns {P : Value → Prop} {r : Outcome Value} (h : Returns P r) (part : Value)
    (whole : Constraint) : Returns P (within part whole r) := by
  match r with
  | .ok w => exact h
  | .error (.defect d) => exact h
  | .error (.error e) => exact .ite (fun _ => .fail) fun _ => h

theorem toStringValue_conforms (v : Value) :
    Returns (Inhabits · .string) v.toStringValue := by
  have htext : Returns (Inhabits · .string) (v.primitiveText.map .string) :=
    (returns_true _).map fun s _ => inhabits_plain rfl (.string s)
  cases v with
  | null => exact .ok (inhabits_plain rfl (.null _))
  | unknown => exact .ok (inhabits_plain rfl (.unknown _))
  | bool | number | string | list | set | map | object => exact htext

theorem toNumberValue_conforms (v : Value) :
    Returns (Inhabits · .number) v.toNumberValue := by
  cases v with
  | null => exact .ok (inhabits_plain rfl (.null _))
  | unknown => exact .ok (inhabits_plain rfl (.unknown _))
  | number n => exact .ok (inhabits_plain rfl (.number n))
  | string s => exact (returns_true _).map fun n _ => inhabits_plain rfl (.number n)
  | bool | list | set | map | object => exact .fail

theorem toBoolValue_conforms (v : Value) :
    Returns (Inhabits · .bool) v.toBoolValue := by
  have hbool : ∀ b, Returns (Inhabits · .bool) (.ok (.bool b)) :=
    fun b => .ok (inhabits_plain rfl (.bool b))
  cases v with
  | null => exact .ok (inhabits_plain rfl (.null _))
  | unknown => exact .ok (inhabits_plain rfl (.unknown _))
  | bool b => exact hbool b
  | string s => exact .ite (fun _ => hbool _) fun _ => .ite (fun _ => hbool _) fun _ => .fail
  | number | list | set | map | object => exact .fail

/-- The fields of a converted object, if they conform to the types of attributes. -/
theorem inhabits_ofList {attributes : List (String × Constraint)}
    {converted : List (String × Value)}
    (h : Table.Related (fun t w => w.Inhabits t) attributes converted) :
    (Value.object (Table.ofList converted)).Inhabits (.object attributes) := by
  have htables := h.ofList
  have hdistinct := Table.nodup_keys_ofList converted
  have hfound : ∀ f ∈ Table.ofList converted, ∃ t,
      Table.get? (Table.ofList attributes) f.1 = some t ∧ f.2.Inhabits t := by
    intro f hf
    have hget := htables.get? f.1
    rw [(Table.mem_iff_get?_eq_some hdistinct).mp hf] at hget
    generalize Table.get? (Table.ofList attributes) f.1 = found at hget ⊢
    cases hget with
    | some hfits => exact ⟨_, rfl, hfits⟩
  constructor
  · apply Conforms.object
    · intro key
      rw [htables.keys_eq, Table.mem_keys_ofList]
    · intro f hf t ht
      obtain ⟨t', ht', hfits⟩ := hfound f hf
      rw [ht] at ht'
      cases ht'
      exact hfits.conforms
  · simp only [IsValid, fieldsValid_iff]
    refine ⟨hdistinct, fun f hf => ?_⟩
    obtain ⟨_, _, hfits⟩ := hfound f hf
    exact hfits.isValid

/-- Converted field by field, a table keeps its keys. -/
theorem mapM_fields_returns {P : Value → Prop} {convertField : String × Value → Outcome Value}
    {fields : List (String × Value)} (h : ∀ f ∈ fields, Returns P (convertField f)) :
    Returns (fun converted => Table.keys converted = Table.keys fields ∧ ∀ f ∈ converted, P f.2)
      (fields.mapM fun f => do return (f.1, ← convertField f)) := by
  induction fields with
  | nil => exact .pure ⟨rfl, fun f hf => absurd hf List.not_mem_nil⟩
  | cons f fields ih =>
    obtain ⟨hf, hfields⟩ := List.forall_mem_cons.mp h
    rw [List.mapM_cons]
    have hfirst : Returns (fun g => g.1 = f.1 ∧ P g.2)
        (do return (f.1, ← convertField f) : Outcome (String × Value)) :=
      hf.bind fun w _ hw => .pure ⟨rfl, hw⟩
    refine hfirst.bind fun g _ hg => (ih hfields).bind fun converted _ hconverted => .pure ?_
    constructor
    · simp only [Table.keys, List.map_cons] at hconverted ⊢
      rw [hg.1, hconverted.1]
    · exact List.forall_mem_cons.mpr ⟨hg.2, hconverted.2⟩

mutual

/-- What a conversion returns conforms to the type. -/
theorem convert_returns {v : Value} (hv : v.IsValid) (t : Constraint) :
    Returns (Inhabits · t) (v.convert t) := by
  match t with
  | .any => exact .ok ⟨.any v, hv⟩
  | .string => exact toStringValue_conforms v
  | .number => exact toNumberValue_conforms v
  | .bool => exact toBoolValue_conforms v
  | .list element =>
    rw [convert]
    refine .ite (fun hblank => .ok (inhabits_of_blank hblank _)) fun _ => ?_
    split
    · exact .fail
    · rename_i items hitems
      have hparts := yields_mapM fun item hitem => within_returns
        (convert_returns (isValid_of_items hv hitems item hitem) element) item (.list element)
      refine hparts.bind fun converted _ hconverted => .pure ?_
      apply inhabits_list
      intro w hw
      -- Sorted or not, these are the elements.
      split at hw
      · exact hconverted w (Sorting.mem_sortBy.mp hw)
      · exact hconverted w hw
  | .set element =>
    rw [convert]
    refine .ite (fun hblank => .ok (inhabits_of_blank hblank _)) fun _ => ?_
    split
    · exact .fail
    · rename_i items hitems
      have hparts := yields_mapM fun item hitem => within_returns
        (convert_returns (isValid_of_items hv hitems item hitem) element) item (.set element)
      refine hparts.bind fun converted _ hconverted => .pure ?_
      split
      · -- Unknown among the elements makes the whole set unknown.
        exact inhabits_plain rfl (.unknown _)
      · rename_i hknown
        exact inhabits_setOf (by simpa using hknown) hconverted
  | .map element =>
    rw [convert]
    refine .ite (fun hblank => .ok (inhabits_of_blank hblank _)) fun _ => ?_
    split
    · exact .fail
    · rename_i fields hfields
      have hkeys := isValid_of_fields hv hfields
      have hparts := mapM_fields_returns fun f hf => within_returns
        (convert_returns (hkeys.2 f hf) element) f.2 (.map element)
      refine hparts.bind fun converted _ hconverted => .pure ?_
      exact inhabits_map (hconverted.1 ▸ hkeys.1) hconverted.2
  | .object attributes =>
    rw [convert]
    refine .ite (fun hblank => .ok (inhabits_of_blank hblank _)) fun _ => ?_
    split
    · exact .fail
    · rename_i fields hfields
      split
      · exact .fail
      · have hparts := convertAttributes_returns (isValid_of_fields hv hfields).2
          (.object attributes) attributes
        exact hparts.bind fun converted _ hconverted => .pure (inhabits_ofList hconverted)

/-- Each attribute gets a value that conforms to its type. -/
theorem convertAttributes_returns {fields : List (String × Value)}
    (hfields : ∀ f ∈ fields, f.2.IsValid) (whole : Constraint)
    (attributes : List (String × Constraint)) :
    Returns (Table.Related (fun t w => w.Inhabits t) attributes)
      (convertAttributes whole fields attributes) := by
  match attributes with
  | [] =>
    rw [convertAttributes]
    exact .ok .nil
  | (key, t) :: rest =>
    have hitem : ((Table.get? fields key).getD .null).IsValid := by
      cases hfound : Table.get? fields key with
      | none => simp only [Option.getD_none, IsValid]
      | some x => exact hfields _ (Table.mem_of_get?_eq_some hfound)
    rw [convertAttributes]
    refine (within_returns (convert_returns hitem t) _ whole).bind fun w _ hw => ?_
    refine (convertAttributes_returns hfields whole rest).bind fun converted _ hconverted => ?_
    exact .pure (.cons key hw hconverted)

end

/-! ## What conforms is kept -/

theorem unexpectedKey?_eq_none {fields : List (String × Value)}
    {attributes : List (String × Constraint)}
    (h : ∀ key ∈ Table.keys fields, key ∈ Table.keys attributes) :
    unexpectedKey? fields attributes = none := by
  have hnone : (Table.keys fields).filter (fun key => !attributes.any (·.1 == key)) = [] := by
    rw [List.filter_eq_nil_iff]
    intro key hkey
    obtain ⟨a, ha, rfl⟩ := List.mem_map.mp (h key hkey)
    have hany : attributes.any (fun b => b.1 == a.1) = true :=
      List.any_eq_true.mpr ⟨a, ha, beq_self_eq_true a.1⟩
    simp [hany]
  rw [unexpectedKey?, hnone]
  rfl

/-- Fields that have a value for each attribute are converted attribute by attribute. -/
theorem convertAttributes_of_fields {fields : List (String × Value)} (whole : Constraint)
    {attributes : List (String × Constraint)}
    (h : ∀ a ∈ attributes, ∃ x y, Table.get? fields a.1 = some x ∧ convert x a.2 = .ok y
      ∧ Alike x y) :
    ∃ converted, convertAttributes whole fields attributes = .ok converted
      ∧ Table.keys converted = Table.keys attributes
      ∧ ∀ f ∈ converted, ∃ x, Table.get? fields f.1 = some x ∧ Alike x f.2 := by
  induction attributes with
  | nil => exact ⟨[], by rw [convertAttributes], rfl, fun f hf => absurd hf List.not_mem_nil⟩
  | cons a rest ih =>
    obtain ⟨⟨x, y, hfound, hconvert, halike⟩, hrest⟩ := List.forall_mem_cons.mp h
    obtain ⟨converted, hconverted, hkeys, hall⟩ := ih hrest
    refine ⟨(a.1, y) :: converted, ?_, ?_, List.forall_mem_cons.mpr ⟨⟨x, hfound, halike⟩, hall⟩⟩
    · rw [convertAttributes, hfound, Option.getD_some, hconvert, hconverted]
      rfl
    · simp only [Table.keys, List.map_cons] at hkeys ⊢
      rw [hkeys]

/-- Elements that are converted to their likes. -/
theorem exists_itemsAlike {items : List Value} {element : Constraint} (whole : Constraint)
    (h : ∀ x ∈ items, ∃ y, convert x element = .ok y ∧ Alike x y) :
    ∃ converted, items.mapM (fun item => within item whole (convert item element)) = .ok converted
      ∧ ItemsAlike items converted := by
  have hparts : ∀ x ∈ items, ∃ y, within x whole (convert x element) = .ok y ∧ Alike x y := by
    intro x hx
    obtain ⟨y, hy, halike⟩ := h x hx
    rw [hy]
    exact ⟨y, rfl, halike⟩
  obtain ⟨converted, hconverted, halike⟩ := exists_mapM_eq_ok hparts
  exact ⟨converted, hconverted, itemsAlike_iff.mpr halike⟩

theorem exists_fieldsAlike {fields : List (String × Value)} {element : Constraint}
    (whole : Constraint) (h : ∀ f ∈ fields, ∃ y, convert f.2 element = .ok y ∧ Alike f.2 y) :
    ∃ converted, fields.mapM
        (fun f => do return (f.1, ← within f.2 whole (convert f.2 element))) = .ok converted
      ∧ FieldsAlike fields converted := by
  have hparts : ∀ f ∈ fields, ∃ g,
      (do return (f.1, ← within f.2 whole (convert f.2 element)) : Outcome (String × Value)) = .ok g
        ∧ g.1 = f.1 ∧ Alike f.2 g.2 := by
    intro f hf
    obtain ⟨y, hy, halike⟩ := h f hf
    rw [hy]
    exact ⟨(f.1, y), rfl, rfl, halike⟩
  obtain ⟨converted, hconverted, halike⟩ := exists_mapM_eq_ok hparts
  refine ⟨converted, hconverted, ?_⟩
  clear hconverted h hparts
  induction halike with
  | nil => exact .nil
  | @cons f g _ _ hfg _ ih =>
    obtain ⟨key, y⟩ := g
    obtain ⟨rfl, halike⟩ := hfg
    exact .cons halike ih

/-- A valid value that conforms to a type without repeated attributes is converted to its like. -/
theorem convert_of_conforms (ht : t.Unrepeated) {v : Value} (hv : v.IsValid)
    (h : v.Conforms t) : ∃ w, v.convert t = .ok w ∧ Alike v w := by
  induction ht generalizing v with
  | any => exact ⟨v, by rw [convert], hv.alike⟩
  | string =>
    refine ⟨v, ?_, hv.alike⟩
    rw [convert]
    cases h <;> rfl
  | number =>
    refine ⟨v, ?_, hv.alike⟩
    rw [convert]
    cases h <;> rfl
  | bool =>
    refine ⟨v, ?_, hv.alike⟩
    rw [convert]
    cases h <;> rfl
  | @list element _ ih =>
    cases h with
    | null => exact ⟨.null, convert_of_blank rfl _, .null⟩
    | unknown => exact ⟨.unknown, convert_of_blank rfl _, .unknown⟩
    | @list items _ hitems =>
      simp only [IsValid, itemsValid_iff] at hv
      obtain ⟨converted, hconverted, halike⟩ :=
        exists_itemsAlike (.list element) fun x hx => ih (hv x hx) (hitems x hx)
      refine ⟨.list converted, ?_, .list halike⟩
      rw [convert]
      simp only [items?, hconverted]
      rfl
  | @set element _ ih =>
    cases h with
    | null => exact ⟨.null, convert_of_blank rfl _, .null⟩
    | unknown => exact ⟨.unknown, convert_of_blank rfl _, .unknown⟩
    | @set items _ hknown hitems =>
      simp only [IsValid, itemsValid_iff] at hv
      obtain ⟨hascending, hvalid⟩ := hv
      obtain ⟨converted, hconverted, halike⟩ :=
        exists_itemsAlike (.set element) fun x hx => ih (hvalid x hx) (hitems x hx)
      refine ⟨setOf converted, ?_, ?_⟩
      · rw [halike.containsUnknown_eq] at hknown
        rw [convert]
        simp only [items?, hconverted]
        show Except.ok (if anyContainsUnknown converted then _ else _) = _
        rw [hknown]
        rfl
      · -- The elements ascend already, so the set of them is the set itself.
        rw [← setOf_of_ascending hvalid hascending]
        exact halike.setOf
  | @map element _ ih =>
    cases h with
    | null => exact ⟨.null, convert_of_blank rfl _, .null⟩
    | unknown => exact ⟨.unknown, convert_of_blank rfl _, .unknown⟩
    | @map fields _ hfields =>
      simp only [IsValid, fieldsValid_iff] at hv
      obtain ⟨converted, hconverted, halike⟩ :=
        exists_fieldsAlike (.map element) fun f hf => ih (hv.2 f hf) (hfields f hf)
      refine ⟨.map converted, ?_, .map hv.1 halike (List.Perm.refl _)⟩
      rw [convert]
      simp only [fields?, hconverted]
      rfl
  | @object attributes hdistinct _ ih =>
    cases h with
    | null => exact ⟨.null, convert_of_blank rfl _, .null⟩
    | unknown => exact ⟨.unknown, convert_of_blank rfl _, .unknown⟩
    | @object fields _ hkeys hfields =>
      simp only [IsValid, fieldsValid_iff] at hv
      -- No attribute is repeated, so its last type is its only one.
      rw [Table.ofList_of_nodup hdistinct] at hfields
      have hparts : ∀ a ∈ attributes, ∃ x y, Table.get? fields a.1 = some x
          ∧ convert x a.2 = .ok y ∧ Alike x y := by
        intro a ha
        have hkey : a.1 ∈ Table.keys fields := (hkeys a.1).mpr (List.mem_map.mpr ⟨a, ha, rfl⟩)
        obtain ⟨x, hx⟩ := Option.isSome_iff_exists.mp ((Table.has_iff_mem_keys _ _).mpr hkey)
        have hfield := Table.mem_of_get?_eq_some hx
        have hconforms := hfields _ hfield a.2 ((Table.mem_iff_get?_eq_some hdistinct).mp ha)
        obtain ⟨y, hy, halike⟩ := ih a ha (hv.2 _ hfield) hconforms
        exact ⟨x, y, hx, hy, halike⟩
      obtain ⟨converted, hconverted, hconvertedKeys, hall⟩ :=
        convertAttributes_of_fields (.object attributes) hparts
      have hconvertedDistinct : (Table.keys converted).Nodup := hconvertedKeys ▸ hdistinct
      refine ⟨.object converted, ?_, alike_object ?_⟩
      · rw [convert]
        have hexpected := unexpectedKey?_eq_none fun key hkey => (hkeys key).mp hkey
        simp only [fields?, hexpected, hconverted]
        show Except.ok (Value.object (Table.ofList converted)) = _
        rw [Table.ofList_of_nodup hconvertedDistinct]
      · -- The converted fields come in the order of the attributes.
        apply Table.similar_of_get? hv.1 hconvertedDistinct
        intro key
        cases hfound : Table.get? converted key with
        | some y =>
          obtain ⟨x, hx, halike⟩ := hall _ (Table.mem_of_get?_eq_some hfound)
          rw [hx]
          exact .some halike
        | none =>
          -- What is no attribute's name is no field's name either.
          have habsent : Table.get? fields key = none := by
            rw [← Option.not_isSome_iff_eq_none]
            intro hsome
            have hkey := (hkeys key).mp ((Table.has_iff_mem_keys fields key).mp hsome)
            rw [← hconvertedKeys, ← Table.has_iff_mem_keys, Table.has, hfound] at hkey
            cases hkey
          rw [habsent]
          exact .none

/-! ## Retraction -/

/-- What conforms is converted to an equal value. -/
theorem exists_convert_equal {v : Value} (hv : v.IsValid) (ht : t.Unrepeated)
    (h : v.Conforms t) : ∃ w, v.convert t = .ok w ∧ w.equals v = true := by
  obtain ⟨w, hw, halike⟩ := convert_of_conforms ht hv h
  refine ⟨w, hw, ?_⟩
  rw [← halike.equals_congr hv.alike]
  exact hv.alike.equals

/-- Conversion is a retraction onto the values of a type: what it returns conforms to the type, and
what conforms is converted to an equal value.  So what has been converted may be converted again,
and stays equal. -/
theorem convert_retraction {v : Value} (hv : v.Constructed) (t : Constraint) :
    (∀ w, v.convert t = .ok w → w.Conforms t)
    ∧ (t.Unrepeated → v.Conforms t → ∃ w, v.convert t = .ok w ∧ w.equals v = true)
    ∧ (t.Unrepeated → ∀ w, v.convert t = .ok w →
      ∃ w', w.convert t = .ok w' ∧ w'.equals w = true) := by
  have hreturns := (convert_returns hv.isValid t).result
  refine ⟨fun w hw => (hreturns w hw).conforms, ?_, ?_⟩
  · exact fun ht h => exists_convert_equal hv.isValid ht h
  · intro ht w hw
    exact exists_convert_equal (hreturns w hw).isValid ht (hreturns w hw).conforms

/-- A map with a list of texts becomes an object with a set of numbers, one of which was written in
two ways, and an attribute that was missing.  The object type then keeps what it has made, and an
object whose attributes are given in another order. -/
theorem convert_retraction_ports :
    let t : Constraint := .object [("ports", .set .number), ("note", .string)]
    let u : Value := .map [("ports", .list [.string "22", .string "8", .string "80e-1"])]
    let v : Value := .object [("note", .string "x"), ("ports", .set [.number ⟨false, 8, 0⟩])]
    (∃ w, u.convert t = .ok w ∧ w.Conforms t ∧ ∃ w', w.convert t = .ok w' ∧ w'.equals w = true)
    ∧ ∃ w, v.convert t = .ok w ∧ w.equals v = true := by
  intro t u v
  have hu : u.Constructed := by
    refine IsValid.constructed ?_
    simp [u, IsValid, ItemsValid, FieldsValid, Table.keys]
  have hv : v.Constructed := by
    refine IsValid.constructed ?_
    simp [v, IsValid, ItemsValid, FieldsValid, Table.keys]
  have ht : t.Unrepeated := by
    refine .object (by decide) ?_
    simp only [List.forall_mem_cons]
    exact ⟨.set .number, .string, by simp⟩
  constructor
  · obtain ⟨hconforms, _, hagain⟩ := convert_retraction hu t
    exact ⟨_, rfl, hconforms _ rfl, hagain ht _ rfl⟩
  · apply (convert_retraction hv t).2.1 ht
    refine .object (by simp [Table.keys, or_comm]) ?_
    simp only [List.forall_mem_cons]
    refine ⟨?_, ?_, by simp⟩
    · intro t ht
      cases ht
      exact .string "x"
    · intro t ht
      cases ht
      exact .set (by decide +kernel) (by simp [Conforms.number])

end Value

end Groundplan
