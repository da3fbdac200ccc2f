import Groundplan.Conversion
import Groundplan.Proofs.Decimal.Value
import Groundplan.Proofs.Equality.Table

/-!
# Values That Differ in Representation

Two values are alike if they have the same structure, numbers in it have the same value, and maps
and objects in it have the same fields in any order.  Sets are alike element by element, in the
order in which they list them.  Whatever the language observes of a value is the same for values
that are alike.

## Main Definitions

- `Value.Alike`, `Value.ItemsAlike`, `Value.FieldsAlike`

## Main Statements

- `Value.Alike.items`, `Value.Alike.fields`: the parts of values that are alike
- `Value.Alike.equals_congr`: structural equality
-/

namespace Groundplan

namespace Value

mutual

/-- Two values differ in the order of fields and in the representation of numbers only. -/
inductive Alike : Value → Value → Prop where
  | null : Alike .null .null
  | unknown : Alike .unknown .unknown
  | bool (b : Bool) : Alike (.bool b) (.bool b)
  | number {a b : Decimal} : a.toRat = b.toRat → Alike (.number a) (.number b)
  | string (s : String) : Alike (.string s) (.string s)
  | list {vs ws : List Value} : ItemsAlike vs ws → Alike (.list vs) (.list ws)
  | set {vs ws : List Value} : ItemsAlike vs ws → Alike (.set vs) (.set ws)
  | map {fs gs hs : List (String × Value)} :
      (Table.keys fs).Nodup → FieldsAlike fs hs → hs.Perm gs → Alike (.map fs) (.map gs)
  | object {fs gs hs : List (String × Value)} :
      (Table.keys fs).Nodup → FieldsAlike fs hs → hs.Perm gs → Alike (.object fs) (.object gs)

/-- Place by place, two lists hold values that are alike. -/
inductive ItemsAlike : List Value → List Value → Prop where
  | nil : ItemsAlike [] []
  | cons {v w : Value} {vs ws : List Value} :
      Alike v w → ItemsAlike vs ws → ItemsAlike (v :: vs) (w :: ws)

/-- Place by place, two tables have the same keys and values that are alike. -/
inductive FieldsAlike : List (String × Value) → List (String × Value) → Prop where
  | nil : FieldsAlike [] []
  | cons {key : String} {v w : Value} {fs gs : List (String × Value)} :
      Alike v w → FieldsAlike fs gs → FieldsAlike ((key, v) :: fs) ((key, w) :: gs)

end

variable {v v' w w' : Value} {vs vs' ws ws' : List Value} {fs gs hs : List (String × Value)}

/-! ## Lists and tables -/

theorem itemsAlike_iff : ItemsAlike vs ws ↔ List.Forall₂ Alike vs ws := by
  constructor
  · intro h
    induction vs generalizing ws with
    | nil => cases h; exact .nil
    | cons v vs ih =>
      cases h with
      | cons hhead htail => exact .cons hhead (ih htail)
  · intro h
    induction h with
    | nil => exact .nil
    | cons hhead _ ih => exact .cons hhead ih

theorem fieldsAlike_iff : FieldsAlike fs gs ↔ Table.Related Alike fs gs := by
  constructor
  · intro h
    induction fs generalizing gs with
    | nil => cases h; exact .nil
    | cons f fs ih =>
      cases h with
      | cons hhead htail => exact .cons _ hhead (ih htail)
  · intro h
    induction h with
    | nil => exact .nil
    | cons key hhead _ ih => exact .cons hhead ih

theorem FieldsAlike.similar (h : FieldsAlike fs hs) (hdistinct : (Table.keys fs).Nodup)
    (hperm : hs.Perm gs) : Table.Similar Alike fs gs :=
  ⟨hdistinct, hs, fieldsAlike_iff.mp h, hperm⟩

theorem alike_map (h : Table.Similar Alike fs gs) : Alike (.map fs) (.map gs) := by
  obtain ⟨hdistinct, hs, hrelated, hperm⟩ := h
  exact .map hdistinct (fieldsAlike_iff.mpr hrelated) hperm

theorem alike_object (h : Table.Similar Alike fs gs) : Alike (.object fs) (.object gs) := by
  obtain ⟨hdistinct, hs, hrelated, hperm⟩ := h
  exact .object hdistinct (fieldsAlike_iff.mpr hrelated) hperm

theorem ItemsAlike.append (h : ItemsAlike vs ws) (h' : ItemsAlike vs' ws') :
    ItemsAlike (vs ++ vs') (ws ++ ws') :=
  itemsAlike_iff.mpr (List.rel_append (itemsAlike_iff.mp h) (itemsAlike_iff.mp h'))

theorem ItemsAlike.length_eq (h : ItemsAlike vs ws) : vs.length = ws.length :=
  (itemsAlike_iff.mp h).length_eq

/-- A place holds nothing on either side, or values that are alike. -/
theorem ItemsAlike.get? (h : ItemsAlike vs ws) (i : Nat) : Option.Rel Alike vs[i]? ws[i]? := by
  induction vs generalizing ws i with
  | nil => cases h; exact .none
  | cons v vs ih =>
    cases h with
    | cons hhead htail =>
      cases i with
      | zero => exact .some hhead
      | succ i => exact ih htail i

/-! ## Kinds and parts -/

namespace Alike

theorem kind_eq (h : Alike v w) : v.kind = w.kind := by
  cases h <;> rfl

theorem label_eq (h : Alike v w) : v.label = w.label := by
  rw [label, label, h.kind_eq]

theorem isNull_eq (h : Alike v w) : v.isNull = w.isNull := by
  cases h <;> rfl

theorem isUnknown_eq (h : Alike v w) : v.isUnknown = w.isUnknown := by
  cases h <;> rfl

/-- The elements of a list or set, or none on either side. -/
theorem items (h : Alike v w) : ItemsAlike (v.items?.getD []) (w.items?.getD []) := by
  cases h with
  | list hitems | set hitems => exact hitems
  | null | unknown | bool | number | string | map | object => exact .nil

/-- The fields of a map or object, or none on either side. -/
theorem fields (h : Alike v w) :
    Table.Similar Alike (v.fields?.getD []) (w.fields?.getD []) := by
  cases h with
  | map hdistinct hfields hperm | object hdistinct hfields hperm =>
    exact hfields.similar hdistinct hperm
  | null | unknown | bool | number | string | list | set =>
    exact Table.Related.nil.similar List.nodup_nil

theorem length?_eq (h : Alike v w) : v.length? = w.length? := by
  cases h with
  | list hitems | set hitems => simp only [length?, hitems.length_eq]
  | map hdistinct hfields hperm | object hdistinct hfields hperm =>
    simp only [length?, (hfields.similar hdistinct hperm).length_eq]
  | null | unknown | bool | number | string => rfl

end Alike

/-! ## Unknown parts -/

theorem anyFieldContainsUnknown_eq_any (fs : List (String × Value)) :
    anyFieldContainsUnknown fs = fs.any fun field => field.2.containsUnknown := by
  induction fs with
  | nil => rfl
  | cons f fs ih => rw [anyFieldContainsUnknown, List.any_cons, ih]

theorem anyFieldContainsUnknown_perm (h : fs.Perm gs) :
    anyFieldContainsUnknown fs = anyFieldContainsUnknown gs := by
  rw [anyFieldContainsUnknown_eq_any, anyFieldContainsUnknown_eq_any, h.any_eq]

mutual

theorem Alike.containsUnknown_eq {v w : Value} (h : Alike v w) :
    v.containsUnknown = w.containsUnknown := by
  match h with
  | .null | .unknown | .bool _ | .string _ => rfl
  | .number _ => simp only [containsUnknown]
  | .list hitems | .set hitems =>
    simp only [containsUnknown]
    exact hitems.containsUnknown_eq
  | .map _ hfields hperm | .object _ hfields hperm =>
    simp only [containsUnknown]
    exact hfields.containsUnknown_eq.trans (anyFieldContainsUnknown_perm hperm)

theorem ItemsAlike.containsUnknown_eq {vs ws : List Value} (h : ItemsAlike vs ws) :
    anyContainsUnknown vs = anyContainsUnknown ws := by
  match h with
  | .nil => rfl
  | .cons hhead htail =>
    simp only [anyContainsUnknown, hhead.containsUnknown_eq, htail.containsUnknown_eq]

theorem FieldsAlike.containsUnknown_eq {fs gs : List (String × Value)} (h : FieldsAlike fs gs) :
    anyFieldContainsUnknown fs = anyFieldContainsUnknown gs := by
  match h with
  | .nil => rfl
  | .cons hhead htail =>
    simp only [anyFieldContainsUnknown, hhead.containsUnknown_eq, htail.containsUnknown_eq]

end

/-! ## Equality -/

theorem eachFieldAmong_eq_all (fs gs : List (String × Value)) :
    eachFieldAmong fs gs = fs.all fun field =>
      match Table.get? gs field.1 with
      | some w => field.2.equals w
      | none => false := by
  induction fs with
  | nil => simp [eachFieldAmong]
  | cons f fs ih =>
    rw [eachFieldAmong, List.all_cons]
    exact congrArg (_ && ·) ih

theorem eachFieldAmong_perm (h : fs.Perm hs) (gs : List (String × Value)) :
    eachFieldAmong fs gs = eachFieldAmong hs gs := by
  rw [eachFieldAmong_eq_all, eachFieldAmong_eq_all, h.all_eq]

/-- A test that does not tell apart values that are alike finds them in both lists. -/
theorem ItemsAlike.any_eq {p q : Value → Bool} (h : ItemsAlike vs ws)
    (hpq : ∀ v w, Alike v w → p v = q w) : vs.any p = ws.any q := by
  induction vs generalizing ws with
  | nil => cases h; rfl
  | cons v vs ih =>
    cases h with
    | cons hhead htail => rw [List.any_cons, List.any_cons, hpq _ _ hhead, ih htail]

mutual

/-- Structural equality does not tell apart values that are alike. -/
theorem Alike.equals_congr {v v' : Value} (h : Alike v v') {w w' : Value} (hw : Alike w w') :
    v.equals w = v'.equals w' := by
  match h with
  | .null | .unknown | .bool _ | .string _ => cases hw <;> simp only [equals]
  | .number hab =>
    cases hw with
    | number hcd =>
      simp only [equals]
      rw [Bool.eq_iff_iff, Decimal.equals_iff, Decimal.equals_iff, hab, hcd]
    | _ => simp only [equals]
  | .list hitems =>
    cases hw with
    | list hitems' =>
      simp only [equals]
      exact hitems.equalItems_congr hitems'
    | _ => simp only [equals]
  | .set hitems =>
    cases hw with
    | set hitems' =>
      simp only [equals, hitems.length_eq, hitems'.length_eq]
      rw [hitems.eachAmong_congr hitems']
    | _ => simp only [equals]
  | .map hdistinct hfields hperm =>
    cases hw with
    | map hdistinct' hfields' hperm' =>
      have hsimilar := hfields'.similar hdistinct' hperm'
      simp only [equals, hsimilar.length_eq, (hfields.similar hdistinct hperm).length_eq]
      rw [hfields.eachFieldAmong_congr hsimilar, eachFieldAmong_perm hperm]
    | _ => simp only [equals]
  | .object hdistinct hfields hperm =>
    cases hw with
    | object hdistinct' hfields' hperm' =>
      have hsimilar := hfields'.similar hdistinct' hperm'
      simp only [equals, hsimilar.length_eq, (hfields.similar hdistinct hperm).length_eq]
      rw [hfields.eachFieldAmong_congr hsimilar, eachFieldAmong_perm hperm]
    | _ => simp only [equals]

theorem ItemsAlike.equalItems_congr {vs vs' : List Value} (h : ItemsAlike vs vs')
    {ws ws' : List Value} (hws : ItemsAlike ws ws') : equalItems vs ws = equalItems vs' ws' := by
  match h with
  | .nil => cases hws <;> simp only [equalItems]
  | .cons hhead htail =>
    cases hws with
    | nil => simp only [equalItems]
    | cons hhead' htail' =>
      simp only [equalItems, hhead.equals_congr hhead', htail.equalItems_congr htail']

theorem ItemsAlike.eachAmong_congr {vs vs' : List Value} (h : ItemsAlike vs vs')
    {ws ws' : List Value} (hws : ItemsAlike ws ws') : eachAmong vs ws = eachAmong vs' ws' := by
  match h with
  | .nil => simp only [eachAmong]
  | .cons hhead htail =>
    simp only [eachAmong, htail.eachAmong_congr hws,
      hws.any_eq fun _ _ hw => hhead.equals_congr hw]

theorem FieldsAlike.eachFieldAmong_congr {fs fs' : List (String × Value)} (h : FieldsAlike fs fs')
    {gs gs' : List (String × Value)} (hgs : Table.Similar Alike gs gs') :
    eachFieldAmong fs gs = eachFieldAmong fs' gs' := by
  match h with
  | .nil => simp only [eachFieldAmong]
  | @FieldsAlike.cons key _ _ _ _ hhead htail =>
    simp only [eachFieldAmong, htail.eachFieldAmong_congr hgs]
    have hget := hgs.get? key
    generalize Table.get? gs key = found at hget
    generalize Table.get? gs' key = found' at hget
    cases hget with
    | some hw => simp only [hhead.equals_congr hw]
    | none => rfl

end

theorem Alike.among_congr (h : Alike v w) (hitems : ItemsAlike vs ws) :
    v.among vs = w.among ws :=
  hitems.any_eq fun _ _ hw => h.equals_congr hw

end Value

end Groundplan
