import Groundplan.Conversion
import Groundplan.Proofs.Table

/-!
# Learning Unknown Parts of a Value

A value is refined by another one if unknown parts of it, at any depth of lists, maps and
objects, have been replaced by arbitrary values.  Nothing else may change: not the order of
fields, not the way a number is written.  Sets are not refined, because their elements have
no places at which something could be filled in.

## Main Definitions

- `Value.RefinedBy`, `Value.ItemsRefinedBy`, `Value.FieldsRefinedBy`

## Main Statements

- `Value.RefinedBy.eq_of_known`: a value without unknown parts is refined by itself only
- `Value.RefinedBy.trans`: what is learnt in two steps may be learnt in one
-/

namespace Groundplan

namespace Value

mutual

/-- `RefinedBy v w`: the value `w` is `v` with unknown parts replaced by arbitrary values. -/
inductive RefinedBy : Value → Value → Prop where
  /-- Unknown may turn out to be anything. -/
  | unknown (w : Value) : RefinedBy .unknown w
  | null : RefinedBy .null .null
  | bool (b : Bool) : RefinedBy (.bool b) (.bool b)
  | number (n : Decimal) : RefinedBy (.number n) (.number n)
  | string (s : String) : RefinedBy (.string s) (.string s)
  | set (items : List Value) : RefinedBy (.set items) (.set items)
  | list {vs ws : List Value} : ItemsRefinedBy vs ws → RefinedBy (.list vs) (.list ws)
  | map {fs gs : List (String × Value)} : FieldsRefinedBy fs gs → RefinedBy (.map fs) (.map gs)
  | object {fs gs : List (String × Value)} :
      FieldsRefinedBy fs gs → RefinedBy (.object fs) (.object gs)

/-- Place by place, the values of one list are refined by those of another. -/
inductive ItemsRefinedBy : List Value → List Value → Prop where
  | nil : ItemsRefinedBy [] []
  | cons {v w : Value} {vs ws : List Value} :
      RefinedBy v w → ItemsRefinedBy vs ws → ItemsRefinedBy (v :: vs) (w :: ws)

/-- Place by place, two tables have the same keys and values of which one is refined by the
other. -/
inductive FieldsRefinedBy : List (String × Value) → List (String × Value) → Prop where
  | nil : FieldsRefinedBy [] []
  | cons {key : String} {v w : Value} {fs gs : List (String × Value)} :
      RefinedBy v w → FieldsRefinedBy fs gs → FieldsRefinedBy ((key, v) :: fs) ((key, w) :: gs)

end

/-! ## Reflexivity and transitivity -/

mutual

@[refl]
theorem RefinedBy.refl (v : Value) : RefinedBy v v := by
  match v with
  | .null => exact .null
  | .bool b => exact .bool b
  | .number n => exact .number n
  | .string s => exact .string s
  | .list vs => exact .list (ItemsRefinedBy.refl vs)
  | .set vs => exact .set vs
  | .map fs => exact .map (FieldsRefinedBy.refl fs)
  | .object fs => exact .object (FieldsRefinedBy.refl fs)
  | .unknown => exact .unknown _

theorem ItemsRefinedBy.refl (vs : List Value) : ItemsRefinedBy vs vs := by
  match vs with
  | [] => exact .nil
  | v :: vs => exact .cons (RefinedBy.refl v) (ItemsRefinedBy.refl vs)

theorem FieldsRefinedBy.refl (fs : List (String × Value)) : FieldsRefinedBy fs fs := by
  match fs with
  | [] => exact .nil
  | (_, v) :: fs => exact .cons (RefinedBy.refl v) (FieldsRefinedBy.refl fs)

end

mutual

/-- What is learnt in two steps may be learnt in one. -/
theorem RefinedBy.trans {u v w : Value} (huv : RefinedBy u v) (hvw : RefinedBy v w) :
    RefinedBy u w := by
  match huv with
  | .unknown _ => exact .unknown w
  | .null | .bool _ | .number _ | .string _ | .set _ => exact hvw
  | .list hitems =>
    cases hvw with
    | list hitems' => exact .list (hitems.trans hitems')
  | .map hfields =>
    cases hvw with
    | map hfields' => exact .map (hfields.trans hfields')
  | .object hfields =>
    cases hvw with
    | object hfields' => exact .object (hfields.trans hfields')

theorem ItemsRefinedBy.trans {us vs ws : List Value} (huv : ItemsRefinedBy us vs)
    (hvw : ItemsRefinedBy vs ws) : ItemsRefinedBy us ws := by
  match huv with
  | .nil => exact hvw
  | .cons hhead htail =>
    cases hvw with
    | cons hhead' htail' => exact .cons (hhead.trans hhead') (htail.trans htail')

theorem FieldsRefinedBy.trans {fs gs hs : List (String × Value)} (hfg : FieldsRefinedBy fs gs)
    (hgh : FieldsRefinedBy gs hs) : FieldsRefinedBy fs hs := by
  match hfg with
  | .nil => exact hgh
  | .cons hhead htail =>
    cases hgh with
    | cons hhead' htail' => exact .cons (hhead.trans hhead') (htail.trans htail')

end

/-! ## Known values -/

mutual

/-- A value without unknown parts is refined by itself only. -/
theorem RefinedBy.eq_of_known {v w : Value} (h : RefinedBy v w)
    (hknown : v.containsUnknown = false) : w = v := by
  match h with
  | .unknown _ => simp [containsUnknown] at hknown
  | .null | .bool _ | .number _ | .string _ | .set _ => rfl
  | .list hitems =>
    simp only [containsUnknown] at hknown
    rw [hitems.eq_of_known hknown]
  | .map hfields =>
    simp only [containsUnknown] at hknown
    rw [hfields.eq_of_known hknown]
  | .object hfields =>
    simp only [containsUnknown] at hknown
    rw [hfields.eq_of_known hknown]

theorem ItemsRefinedBy.eq_of_known {vs ws : List Value} (h : ItemsRefinedBy vs ws)
    (hknown : anyContainsUnknown vs = false) : ws = vs := by
  match h with
  | .nil => rfl
  | .cons hhead htail =>
    simp only [anyContainsUnknown, Bool.or_eq_false_iff] at hknown
    rw [hhead.eq_of_known hknown.1, htail.eq_of_known hknown.2]

theorem FieldsRefinedBy.eq_of_known {fs gs : List (String × Value)} (h : FieldsRefinedBy fs gs)
    (hknown : anyFieldContainsUnknown fs = false) : gs = fs := by
  match h with
  | .nil => rfl
  | .cons hhead htail =>
    simp only [anyFieldContainsUnknown, Bool.or_eq_false_iff] at hknown
    rw [hhead.eq_of_known hknown.1, htail.eq_of_known hknown.2]

end

/-- Only unknown itself is refined by a value of another kind. -/
theorem RefinedBy.unknown_or_kind_eq {v w : Value} (h : RefinedBy v w) :
    v = .unknown ∨ (w.kind = v.kind ∧ w.isUnknown = false) := by
  cases h <;> simp [kind, isUnknown]

/-- What is not unknown itself keeps its kind. -/
theorem RefinedBy.kind_eq {v w : Value} (h : RefinedBy v w) (hv : v.isUnknown = false) :
    w.kind = v.kind := by
  rcases h.unknown_or_kind_eq with rfl | hkind
  · simp [isUnknown] at hv
  · exact hkind.1

/-- What is not unknown itself does not become unknown. -/
theorem RefinedBy.isUnknown_eq_false {v w : Value} (h : RefinedBy v w)
    (hv : v.isUnknown = false) : w.isUnknown = false := by
  rcases h.unknown_or_kind_eq with rfl | hkind
  · simp [isUnknown] at hv
  · exact hkind.2

theorem RefinedBy.label_eq {v w : Value} (h : RefinedBy v w) (hv : v.isUnknown = false) :
    w.label = v.label := by
  rw [label, label, h.kind_eq hv]

/-- A primitive value stays as it is. -/
theorem RefinedBy.eq_of_primitive {v w : Value} (h : RefinedBy v w)
    (hv : v.kind.isPrimitive = true) : w = v := by
  cases h <;> first | rfl | simp [kind, Kind.isPrimitive] at hv

/-! ## Lists of values -/

theorem itemsRefinedBy_iff {vs ws : List Value} :
    ItemsRefinedBy vs ws ↔ List.Forall₂ RefinedBy vs ws := by
  constructor
  · intro h
    induction vs generalizing ws with
    | nil => cases h; exact .nil
    | cons v vs ih =>
      cases h with
      | cons hhead htail => exact .cons hhead (ih htail)
  · intro h
    induction h with
    | nil => exact .nil
    | cons hhead _ ih => exact .cons hhead ih

theorem ItemsRefinedBy.append {vs ws us xs : List Value} (h : ItemsRefinedBy vs ws)
    (h' : ItemsRefinedBy us xs) : ItemsRefinedBy (vs ++ us) (ws ++ xs) := by
  induction vs generalizing ws with
  | nil => cases h; exact h'
  | cons v vs ih =>
    cases h with
    | cons hhead htail => exact .cons hhead (ih htail)

/-- A place holds nothing on either side, or a value and one that refines it. -/
theorem ItemsRefinedBy.get? {vs ws : List Value} (h : ItemsRefinedBy vs ws) (i : Nat) :
    Option.Rel RefinedBy vs[i]? ws[i]? := by
  induction vs generalizing ws i with
  | nil => cases h; exact .none
  | cons v vs ih =>
    cases h with
    | cons hhead htail =>
      cases i with
      | zero => exact .some hhead
      | succ i => exact ih htail i

/-! ## Tables of values -/

theorem fieldsRefinedBy_iff {fs gs : List (String × Value)} :
    FieldsRefinedBy fs gs ↔ Table.Related RefinedBy fs gs := by
  constructor
  · intro h
    induction fs generalizing gs with
    | nil => cases h; exact .nil
    | cons f fs ih =>
      cases h with
      | cons hhead htail => exact .cons _ hhead (ih htail)
  · intro h
    induction h with
    | nil => exact .nil
    | cons key hhead _ ih => exact .cons hhead ih

namespace FieldsRefinedBy

variable {fs gs : List (String × Value)}

theorem related (h : FieldsRefinedBy fs gs) : Table.Related RefinedBy fs gs :=
  fieldsRefinedBy_iff.mp h

theorem keys_eq (h : FieldsRefinedBy fs gs) : Table.keys gs = Table.keys fs :=
  h.related.keys_eq

theorem length_eq (h : FieldsRefinedBy fs gs) : gs.length = fs.length := by
  have hkeys := congrArg List.length h.keys_eq
  simpa [Table.keys] using hkeys

/-- Tables may be stored over related ones on both sides. -/
theorem putAll {entries entries' : List (String × Value)} (h : FieldsRefinedBy fs gs)
    (hentries : FieldsRefinedBy entries entries') :
    FieldsRefinedBy (Table.putAll fs entries) (Table.putAll gs entries') :=
  fieldsRefinedBy_iff.mpr (h.related.putAll hentries.related)

/-- The values of a table, without their keys. -/
theorem values (h : FieldsRefinedBy fs gs) :
    ItemsRefinedBy (fs.map Prod.snd) (gs.map Prod.snd) :=
  itemsRefinedBy_iff.mpr h.related.values

/-- Sorting by keys moves the values of both sides alike. -/
theorem sortKeys (h : FieldsRefinedBy fs gs) :
    FieldsRefinedBy (Sorting.sortKeys fs) (Sorting.sortKeys gs) :=
  fieldsRefinedBy_iff.mpr h.related.sortKeys

end FieldsRefinedBy

/-- The fields of a map or object, or none on either side. -/
theorem RefinedBy.fields {v w : Value} (h : RefinedBy v w) (hv : v.isUnknown = false) :
    FieldsRefinedBy (v.fields?.getD []) (w.fields?.getD []) := by
  cases h with
  | unknown => simp [isUnknown] at hv
  | map hfields => exact hfields
  | object hfields => exact hfields
  | null | bool | number | string | set | list => exact .nil

/-- The elements of a list or set, or none on either side. -/
theorem RefinedBy.items {v w : Value} (h : RefinedBy v w) (hv : v.isUnknown = false) :
    ItemsRefinedBy (v.items?.getD []) (w.items?.getD []) := by
  cases h with
  | unknown => simp [isUnknown] at hv
  | list hitems => exact hitems
  | set items => exact ItemsRefinedBy.refl items
  | null | bool | number | string | map | object => exact .nil

end Value

end Groundplan
