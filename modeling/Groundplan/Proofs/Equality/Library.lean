import Groundplan.Proofs.Decimal.Power
import Groundplan.Proofs.Equality.Collection
import Groundplan.Proofs.Refinement.Library

/-!
# Functions on Values That Are Alike

A function of the library sees a number as its value or as its text, which depends on the value
only, and a collection through its elements and sorted fields.  So every function but `format`,
which shows digits, agrees on arguments that are alike.  Of powers it is assumed that they respect
the values of numbers.

## Main Definitions

- `Library.standardWith`: the standard library, given the operation of powers
- `Library.Respects`: calls agree on arguments that are alike

## Main Statements

- `Function.IsRespectful.invoke`: checks and policies agree as well
- `Library.standard_respectful`: all functions of the standard library but two
- `Library.standardWith_respects`: calls of the standard library
-/

namespace Groundplan

open Value

variable {v w : Value} {vs ws : List Value}

namespace Library

/-! ## Functions on numbers -/

/-- Of numbers with the same values, the same one is picked. -/
theorem foldl_pick_congr {test : Decimal → Decimal → Bool}
    (htest : ∀ {a a' b b' : Decimal}, a.toRat = a'.toRat → b.toRat = b'.toRat →
      test a b = test a' b') {as bs : List Decimal} (h : NumbersAlike as bs) {a b : Decimal}
    (hab : a.toRat = b.toRat) :
    (as.foldl (fun found n => if test n found then n else found) a).toRat
      = (bs.foldl (fun found n => if test n found then n else found) b).toRat := by
  induction h generalizing a b with
  | nil => exact hab
  | cons hhead _ ih =>
    simp only [List.foldl_cons]
    refine ih ?_
    rw [htest hhead hab]
    split
    · exact hhead
    · exact hab

theorem total_agrees (h : ItemsAlike vs ws) :
    Agrees (fun a b : Decimal => a.toRat = b.toRat) (total vs) (total ws) := by
  unfold total
  rw [h.isEmpty_eq]
  refine .ite Iff.rfl (fun _ => .fail_bind (by rfl)) fun _ => ?_
  refine (numbers_agrees "sum" 1 h).bind fun _ _ _ _ hfound => ?_
  refine concur_foldlM hfound (fun sum sum' n n' hsum hn => ?_) rfl
  exact ofArithmetic_agrees (Decimal.add_congr Decimal.Context.standard_isSane hsum hn)

theorem raise_agrees {power : Decimal → Decimal → Except Decimal.Refusal Decimal}
    (hpower : Decimal.RespectsValues power) {a a' b b' : Decimal} (ha : a.toRat = a'.toRat)
    (hb : b.toRat = b'.toRat) :
    Agrees (fun r r' : Decimal => r.toRat = r'.toRat) (raise power a b) (raise power a' b') := by
  have h := hpower a a' b b' ha hb
  unfold raise
  generalize power a b = x at h
  generalize power a' b' = y at h
  cases h with
  | ok hr => exact .ok hr
  | error hst =>
    cases hst with
    | signal s => exact .error (.defect _)
    | infinite negative negative' => exact .error (.infinite _ _)

theorem powerFunction_respectful {power : Decimal → Decimal → Except Decimal.Refusal Decimal}
    (hpower : Decimal.RespectsValues power) : (powerFunction power).IsRespectful := by
  intro args args' h
  obtain _ | ⟨hbase, hrest⟩ := h
  · exact .fail (by rfl)
  · cases hbase with
    | number ha =>
      obtain _ | ⟨hexponent, hrest⟩ := hrest
      · exact .fail (by rfl)
      · cases hexponent with
        | number hb =>
          cases hrest with
          | nil => exact (raise_agrees hpower ha hb).map fun _ _ hr => .number hr
          | cons => exact .fail (by rfl)
        | _ => exact .fail (by rfl)
    | _ => exact .fail (by rfl)

theorem numberFunction_respectful {name : String} {run : Decimal → Outcome Decimal}
    (hrun : ∀ a b, a.toRat = b.toRat →
      Agrees (fun r r' : Decimal => r.toRat = r'.toRat) (run a) (run b)) :
    (numberFunction name run).IsRespectful := by
  intro args args' h
  obtain _ | ⟨hnumber, hrest⟩ := h
  · exact .fail (by rfl)
  · cases hnumber with
    | number hab =>
      cases hrest with
      | nil => exact (hrun _ _ hab).map fun _ _ hr => .number hr
      | cons => exact .fail (by rfl)
    | _ => exact .fail (by rfl)

theorem pickFunction_respectful {name : String} {pick : Decimal → List Decimal → Decimal}
    (hpick : ∀ a b as bs, a.toRat = b.toRat → NumbersAlike as bs →
      (pick a as).toRat = (pick b bs).toRat) : (pickFunction name pick).IsRespectful := by
  intro args args' h
  refine (numbers_agrees name 1 h).bind fun _ _ _ _ hfound => ?_
  cases hfound with
  | nil => exact .fail (by rfl)
  | cons hhead htail => exact .pure (.number (hpick _ _ _ _ hhead htail))

theorem numericFunctions_respectful :
    ∀ f ∈ numericFunctions, f.signature.name ≠ "pow" → f.IsRespectful := by
  have hctx := Decimal.Context.standard_isSane
  intro f hf hname
  simp only [numericFunctions, List.mem_cons, List.not_mem_nil, or_false] at hf
  rcases hf with rfl | rfl | rfl | rfl | rfl | rfl | rfl | rfl
  · exact pickFunction_respectful fun _ _ _ _ hab has =>
      foldl_pick_congr (fun ha hb => Decimal.less_congr ha hb) has hab
  · exact pickFunction_respectful fun _ _ _ _ hab has =>
      foldl_pick_congr (fun ha hb => Decimal.less_congr hb ha) has hab
  · exact numberFunction_respectful fun _ _ hab => ofArithmetic_agrees (Decimal.abs_congr hctx hab)
  · exact numberFunction_respectful fun _ _ hab => .ok (Decimal.ceil_congr hab)
  · exact numberFunction_respectful fun _ _ hab => .ok (Decimal.floor_congr hab)
  · exact absurd rfl hname
  · exact numberFunction_respectful fun _ _ hab => .ok (by rw [Decimal.sign_congr hab])
  · -- sum
    intro args args' h
    obtain _ | ⟨hlist, _ | _⟩ := h
    · exact .fail (by rfl)
    · exact (total_agrees hlist.items).map fun _ _ hr => .number hr
    · exact .fail (by rfl)

/-! ## Functions on strings -/

theorem textsOfAll_agrees (position : Int) (h : ItemsAlike vs ws) :
    Agrees Eq (textsOfAll position vs) (textsOfAll position ws) := by
  induction vs generalizing ws position with
  | nil => cases h; exact .refl _
  | cons v vs ih =>
    cases h with
    | cons hhead htail =>
      unfold textsOfAll
      refine (texts_agrees "join" position hhead.items).bind ?_
      rintro found _ - - rfl
      refine (ih (position + 1) htail).bind ?_
      rintro rest _ - - rfl
      exact .refl _

theorem substring_agrees (s : String) {offset offset' length length' : Value}
    (hoffset : Alike offset offset') (hlength : Alike length length') :
    Agrees Eq (substring s offset length) (substring s offset' length') := by
  unfold substring
  refine (wholeNumber_agrees "substr" 2 hoffset).bind ?_
  rintro start _ - - rfl
  refine (wholeNumber_agrees "substr" 3 hlength).bind ?_
  rintro count _ - - rfl
  exact .refl _

/-- What strings give is the same string. -/
theorem map_string_agrees (x : Outcome String) :
    Agrees Alike (x.map Value.string) (x.map Value.string) :=
  (Concur.refl x).map fun _ _ hst => hst ▸ .string _

theorem textFunction_respectful (name : String) (run : String → String) :
    (textFunction name run).IsRespectful := by
  intro args args' h
  obtain _ | ⟨hstring, hrest⟩ := h
  · exact .fail (by rfl)
  · cases hstring with
    | string s =>
      cases hrest with
      | nil => exact .ok (.string _)
      | cons => exact .fail (by rfl)
    | _ => exact .fail (by rfl)

theorem textFunctions_respectful : ∀ f ∈ textFunctions, f.IsRespectful := by
  intro f hf
  simp only [textFunctions, List.mem_cons, List.not_mem_nil, or_false] at hf
  rcases hf with rfl | rfl | rfl | rfl | rfl | rfl | rfl
  · exact textFunction_respectful _ _
  · exact textFunction_respectful _ _
  · exact textFunction_respectful _ _
  · -- join
    intro args args' h
    obtain _ | ⟨hseparator, hlists⟩ := h
    · exact .fail (by rfl)
    · cases hseparator with
      | string separator =>
        refine (textsOfAll_agrees 2 hlists).bind ?_
        rintro found _ - - rfl
        exact .pure (.string _)
      | _ => exact .fail (by rfl)
  · -- split
    intro args args' h
    obtain _ | ⟨hseparator, hrest⟩ := h
    · exact .fail (by rfl)
    · cases hseparator with
      | string separator =>
        obtain _ | ⟨hstring, hrest⟩ := hrest
        · exact .fail (by rfl)
        · cases hstring with
          | string s =>
            cases hrest with
            | nil => exact .ok (.list (.strings _))
            | cons => exact .fail (by rfl)
          | _ => exact .fail (by rfl)
      | _ => exact .fail (by rfl)
  · -- replace
    intro args args' h
    obtain _ | ⟨hstring, hrest⟩ := h
    · exact .fail (by rfl)
    · cases hstring with
      | string s =>
        obtain _ | ⟨hsearch, hrest⟩ := hrest
        · exact .fail (by rfl)
        · cases hsearch with
          | string search =>
            obtain _ | ⟨hreplacement, hrest⟩ := hrest
            · exact .fail (by rfl)
            · cases hreplacement with
              | string replacement =>
                cases hrest with
                | nil => exact map_string_agrees _
                | cons => exact .fail (by rfl)
              | _ => exact .fail (by rfl)
          | _ => exact .fail (by rfl)
      | _ => exact .fail (by rfl)
  · -- substr
    intro args args' h
    obtain _ | ⟨hstring, hrest⟩ := h
    · exact .fail (by rfl)
    · cases hstring with
      | string s =>
        obtain _ | ⟨hoffset, _ | ⟨hlength, _ | _⟩⟩ := hrest
        · exact .fail (by rfl)
        · exact .fail (by rfl)
        · exact (substring_agrees s hoffset hlength).map fun _ _ hst => hst ▸ .string _
        · exact .fail (by rfl)
      | _ => exact .fail (by rfl)

end Library

/-! ## Conversions -/

namespace Value

theorem toStringValue_agrees (h : Alike v w) :
    Agrees Alike v.toStringValue w.toStringValue := by
  have htext := (primitiveText_agrees h).map (S := Alike) (f := Value.string) (g := Value.string)
    fun _ _ hst => hst ▸ .string _
  cases h with
  | null => exact .ok .null
  | unknown => exact .ok .unknown
  | bool | number | string | list | set | map | object => exact htext

theorem toNumberValue_agrees (h : Alike v w) :
    Agrees Alike v.toNumberValue w.toNumberValue := by
  cases h with
  | null => exact .ok .null
  | unknown => exact .ok .unknown
  | number hab => exact .ok (.number hab)
  | string s =>
    exact (Concur.refl (numberOfText s)).map fun _ _ hab => hab ▸ .number rfl
  | bool | list | set | map | object => exact .fail (by rfl)

theorem toBoolValue_agrees (h : Alike v w) : Agrees Alike v.toBoolValue w.toBoolValue := by
  cases h with
  | null => exact .ok .null
  | unknown => exact .ok .unknown
  | bool b => exact .ok (.bool b)
  | string s =>
    exact .ite Iff.rfl (fun _ => .ok (.bool _)) fun _ =>
      .ite Iff.rfl (fun _ => .ok (.bool _)) fun _ => .fail (by rfl)
  | number | list | set | map | object => exact .fail (by rfl)

theorem toListValue_agrees (h : Alike v w) : Agrees Alike v.toListValue w.toListValue := by
  cases h with
  | null => exact .ok .null
  | unknown => exact .ok .unknown
  | list hitems => exact .ok (.list hitems)
  | set hitems => exact .ok (.list hitems.sorted)
  | bool | number | string | map | object => exact .fail (by rfl)

theorem toSetValue_agrees (h : Alike v w) : Agrees Alike v.toSetValue w.toSetValue := by
  cases h with
  | null => exact .ok .null
  | unknown => exact .ok .unknown
  | set hitems => exact .ok (.set hitems)
  | list hitems =>
    simp only [toSetValue, hitems.containsUnknown_eq]
    split
    · exact .ok .unknown
    · exact .ok hitems.setOf
  | bool | number | string | map | object => exact .fail (by rfl)

/-- Whether kinds are mixed does not depend on the order of the values. -/
theorem one_lt_kindLabels_perm (h : vs.Perm ws) :
    1 < (kindLabels vs).length ↔ 1 < (kindLabels ws).length := by
  have hlabels := (h.filter fun v => !v.isUnknown).map label
  simp only [kindLabels, Sorting.sortTexts, Sorting.length_sortBy, one_lt_length_eraseDups,
    hlabels.mem_iff]

theorem ItemsAlike.kindLabels_eq (h : ItemsAlike vs ws) : kindLabels vs = kindLabels ws := by
  have hlabels : (vs.filter fun v => !v.isUnknown).map label
      = (ws.filter fun w => !w.isUnknown).map label := by
    have hfilter := itemsAlike_iff.mp (h.filter (p := fun v => !v.isUnknown)
      (q := fun w => !w.isUnknown) fun v w hvw => by rw [hvw.isUnknown_eq])
    rw [← List.forall₂_eq_eq_eq]
    exact List.forall₂_map_left_iff.mpr (List.forall₂_map_right_iff.mpr
      (hfilter.imp fun _ _ hvw => hvw.label_eq))
  rw [kindLabels, kindLabels, hlabels]

theorem toMapValue_agrees (h : Alike v w) : Agrees Alike v.toMapValue w.toMapValue := by
  cases h with
  | null => exact .ok .null
  | unknown => exact .ok .unknown
  | map hdistinct hfields hperm => exact .ok (.map hdistinct hfields hperm)
  | object hdistinct hfields hperm =>
    have hsimilar := hfields.similar hdistinct hperm
    obtain ⟨values, hvalues, hvaluesPerm⟩ := hsimilar.values
    unfold toMapValue
    refine .ite ?_ (fun _ => .fail (by rfl)) fun _ => .ok (alike_map hsimilar)
    rw [(itemsAlike_iff.mpr hvalues).kindLabels_eq, one_lt_kindLabels_perm hvaluesPerm]
  | bool | number | string | list | set => exact .fail (by rfl)

end Value

namespace Library

theorem conversionFunction_respectful {name : String} {policy : UnknownPolicy}
    {run : Value → Outcome Value} (hrun : ∀ v w, Alike v w → Agrees Alike (run v) (run w)) :
    (conversionFunction name policy run).IsRespectful := by
  intro args args' h
  obtain _ | ⟨hvalue, _ | _⟩ := h
  · exact .fail (by rfl)
  · exact hrun _ _ hvalue
  · exact .fail (by rfl)

theorem conversionFunctions_respectful : ∀ f ∈ conversionFunctions, f.IsRespectful := by
  intro f hf
  simp only [conversionFunctions, List.mem_cons, List.not_mem_nil, or_false] at hf
  rcases hf with rfl | rfl | rfl | rfl | rfl | rfl | rfl
  · exact conversionFunction_respectful fun _ _ => toStringValue_agrees
  · exact conversionFunction_respectful fun _ _ => toNumberValue_agrees
  · exact conversionFunction_respectful fun _ _ => toBoolValue_agrees
  · exact conversionFunction_respectful fun _ _ => toListValue_agrees
  · exact conversionFunction_respectful fun _ _ => toSetValue_agrees
  · exact conversionFunction_respectful fun _ _ => toMapValue_agrees
  · refine conversionFunction_respectful fun v w h => ?_
    rw [h.toJson_eq]
    exact map_string_agrees _

/-! ## Functions on network prefixes -/

theorem wholeNumbers_agrees (function : String) (position : Int) (h : ItemsAlike vs ws) :
    Agrees Eq (wholeNumbers function position vs) (wholeNumbers function position ws) := by
  induction vs generalizing ws position with
  | nil => cases h; exact .refl _
  | cons v vs ih =>
    cases h with
    | cons hhead htail =>
      unfold wholeNumbers
      refine (wholeNumber_agrees function position hhead).bind ?_
      rintro i _ - - rfl
      refine (ih (position + 1) htail).bind ?_
      rintro rest _ - - rfl
      exact .refl _

theorem networkFunctions_respectful : ∀ f ∈ networkFunctions, f.IsRespectful := by
  intro f hf
  simp only [networkFunctions, List.mem_cons, List.not_mem_nil, or_false] at hf
  rcases hf with rfl | rfl | rfl | rfl <;> intro args args' h
  · -- cidrsubnet
    obtain _ | ⟨hwritten, hrest⟩ := h
    · exact .fail (by rfl)
    · cases hwritten with
      | string written =>
        obtain _ | ⟨hbits, _ | ⟨hnumber, _ | _⟩⟩ := hrest
        · exact .fail (by rfl)
        · exact .fail (by rfl)
        · refine (wholeNumber_agrees "cidrsubnet" 2 hbits).bind ?_
          rintro bits _ - - rfl
          refine (wholeNumber_agrees "cidrsubnet" 3 hnumber).bind ?_
          rintro number _ - - rfl
          exact map_string_agrees (subnet written bits number)
        · exact .fail (by rfl)
      | _ => exact .fail (by rfl)
  · -- cidrhost
    obtain _ | ⟨hwritten, hrest⟩ := h
    · exact .fail (by rfl)
    · cases hwritten with
      | string written =>
        obtain _ | ⟨hnumber, _ | _⟩ := hrest
        · exact .fail (by rfl)
        · refine (wholeNumber_agrees "cidrhost" 2 hnumber).bind ?_
          rintro number _ - - rfl
          exact map_string_agrees (host written number)
        · exact .fail (by rfl)
      | _ => exact .fail (by rfl)
  · -- cidrnetmask
    obtain _ | ⟨hwritten, hrest⟩ := h
    · exact .fail (by rfl)
    · cases hwritten with
      | string written =>
        cases hrest with
        | nil => exact map_string_agrees _
        | cons => exact .fail (by rfl)
      | _ => exact .fail (by rfl)
  · -- cidrsubnets
    obtain _ | ⟨hwritten, hbits⟩ := h
    · exact .fail (by rfl)
    · cases hwritten with
      | string written =>
        refine (wholeNumbers_agrees "cidrsubnets" 2 hbits).bind ?_
        rintro bits _ - - rfl
        refine (Concur.refl (subnets written bits)).bind ?_
        rintro found _ - - rfl
        exact .pure (.list (.strings _))
      | _ => exact .fail (by rfl)

/-- All functions of the standard library but the powers and `format` agree on arguments that are
alike. -/
theorem standard_respectful : ∀ f ∈ standard, f.signature.name ≠ "pow" →
    f.signature.name ≠ "format" → f.IsRespectful := by
  intro f hf hpow hformat
  simp only [standard, List.mem_append] at hf
  rcases hf with ((((hf | hf) | hf) | hf) | hf) | hf
  · exact collectionFunctions_respectful f hf
  · exact numericFunctions_respectful f hf hpow
  · exact textFunctions_respectful f hf
  · rw [List.mem_singleton.mp hf] at hformat
    exact absurd rfl hformat
  · exact conversionFunctions_respectful f hf
  · exact networkFunctions_respectful f hf

end Library

/-! ## Checked calls -/

namespace Signature

theorem argumentProblem?_eq (s : Signature) (place : Nat) (p : Param) (h : Alike v w) :
    s.argumentProblem? place p v = s.argumentProblem? place p w := by
  cases h <;> rfl

theorem argumentsProblem?_eq (s : Signature) (place : Nat) (h : ItemsAlike vs ws) :
    s.argumentsProblem? place vs = s.argumentsProblem? place ws := by
  induction vs generalizing ws place with
  | nil => cases h; rfl
  | cons v vs ih =>
    cases h with
    | cons hhead htail =>
      simp only [argumentsProblem?, s.argumentProblem?_eq place _ hhead, ih (place + 1) htail]

/-- A call is checked by the kinds of its arguments. -/
theorem problem?_eq (s : Signature) (h : ItemsAlike vs ws) : s.problem? vs = s.problem? ws := by
  rw [problem?, problem?, h.length_eq, s.argumentsProblem?_eq 0 h]

theorem isUnknownCall_eq (s : Signature) (h : ItemsAlike vs ws) :
    s.isUnknownCall vs = s.isUnknownCall ws := by
  unfold isUnknownCall
  rw [h.containsUnknown_eq, h.any_eq fun _ _ hvw => hvw.isUnknown_eq]

end Signature

/-- Checks and policies agree, and problems get the place of the call on both sides. -/
theorem Function.IsRespectful.invoke {f : Function} (hf : f.IsRespectful) (h : ItemsAlike vs ws)
    (span : Option Span) : Agrees Alike (f.invoke vs span) (f.invoke ws span) := by
  have hrun := hf vs ws h
  unfold Function.invoke
  rw [f.signature.problem?_eq h, f.signature.isUnknownCall_eq h]
  split
  · exact .fail (by rfl)
  · refine .ite Iff.rfl (fun _ => .ok .unknown) fun _ => ?_
    generalize f.run vs = x at hrun
    generalize f.run ws = y at hrun
    cases hrun with
    | ok hvw => exact .ok hvw
    | error hfault =>
      cases hfault with
      -- Signals become errors of the call, and other defects pass through it.
      | error hcategory => exact .error (.error hcategory)
      | infinite shown shown' => exact .error (.infinite shown shown')
      | defect d =>
        cases d with
        | signal s => exact .fail (by rfl)
        | _ => exact .error (.refl _)

namespace Library

/-- The standard library, given the operation of powers. -/
def standardWith (power : Decimal → Decimal → Except Decimal.Refusal Decimal) : Library :=
  standard.map fun f => if f.signature.name = "pow" then powerFunction power else f

/-- With the powers of the language's context it is the standard library. -/
theorem standardWith_power : standardWith Decimal.Context.standard.power = standard := by
  rfl

/-- Calls of a function agree on arguments that are alike. -/
def Respects (library : Library) (name : String) : Prop :=
  ∀ args args' span, ItemsAlike args args' →
    Agrees Alike (library.call name args span) (library.call name args' span)

/-- Every function but `format` is called respectfully, and powers are if the operation respects
values. -/
theorem standardWith_respects {power : Decimal → Decimal → Except Decimal.Refusal Decimal}
    {name : String} (hformat : name ≠ "format")
    (hpower : name = "pow" → Decimal.RespectsValues power) : (standardWith power).Respects name := by
  intro args args' span h
  unfold call
  cases hfound : (standardWith power).find? name with
  | none => exact .fail (by rfl)
  | some f =>
    have hname : f.signature.name = name := beq_iff_eq.mp
      (List.find?_some (p := fun f : Function => f.signature.name == name) hfound)
    have hmem := List.mem_reverse.mp (List.mem_of_find?_eq_some hfound)
    obtain ⟨g, hg, hf⟩ := List.mem_map.mp hmem
    refine Function.IsRespectful.invoke ?_ h span
    by_cases hpow : g.signature.name = "pow"
    · rw [if_pos hpow] at hf
      subst hf
      exact powerFunction_respectful (hpower hname.symm)
    · rw [if_neg hpow] at hf
      subst hf
      exact standard_respectful g hg hpow (hname ▸ hformat)

end Library

end Groundplan
