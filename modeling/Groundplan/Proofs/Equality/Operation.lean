import Groundplan.Expr.Evaluation
import Groundplan.Proofs.Decimal.Arithmetic
import Groundplan.Proofs.Equality.Order

/-!
# Operations on Values That Are Alike

Operators, access to parts, conditions and texts agree on values that are alike: they succeed with
values that are alike again, or they fail with faults of the same class.

## Main Definitions

- `Fault.SameClass`: faults that callers cannot tell apart by their class
- `Agrees`: computations that come to related results or to faults of the same class

## Main Statements

- `Operator.applyBinary_agrees`, `Operator.applyUnary_agrees`
- `Value.element_agrees`, `Value.field_agrees`, `Value.iteration_agrees`
-/

namespace Groundplan

open Value

/-! ## Faults -/

/-- Errors of one family, or the same defect.  Which infinity a result would be does not matter. -/
inductive Fault.SameClass : Fault → Fault → Prop
  | error {e f : EvalError} :
      e.problem.category = f.problem.category → SameClass (.error e) (.error f)
  | defect (d : Defect) : SameClass (.defect d) (.defect d)
  | infinite (shown shown' : String) :
      SameClass (.defect (.notFinite shown)) (.defect (.notFinite shown'))

theorem Fault.SameClass.refl (f : Fault) : SameClass f f := by
  cases f with
  | error e => exact .error rfl
  | defect d => exact .defect d

/-- Both computations succeed with related results, or both fail with faults of one class. -/
abbrev Agrees {α β : Type} (R : α → β → Prop) : Outcome α → Outcome β → Prop :=
  Concur Fault.SameClass R

namespace Concur

variable {α β : Type} {R : α → β → Prop}

theorem of_eq {R : α → α → Prop} {x y : Outcome α} (hxy : x = y) (hR : ∀ a, R a a) :
    Agrees R x y := by
  subst hxy
  cases x with
  | ok a => exact .ok (hR a)
  | error f => exact .error (.refl f)

theorem refl (x : Outcome α) : Agrees Eq x x :=
  of_eq rfl fun _ => rfl

theorem fail {p q : Problem} {span span' : Option Span} (h : p.category = q.category) :
    Agrees R (Groundplan.fail p span) (Groundplan.fail q span') :=
  .error (.error h)

/-- What would come after a failure does not matter. -/
theorem fail_bind {γ δ : Type} {p q : Problem} {span span' : Option Span}
    {f : γ → Outcome α} {g : δ → Outcome β} (h : p.category = q.category) :
    Agrees R (Groundplan.fail p span >>= f) (Groundplan.fail q span' >>= g) :=
  .error (.error h)

end Concur

variable {v w k l : Value}

/-! ## Operators -/

namespace Operator

theorem requireKind_agrees (kind : Kind) (text : String) (span : Option Span) (h : Alike v w) :
    Agrees Eq (requireKind v kind text span) (requireKind w kind text span) := by
  unfold requireKind
  rw [h.isUnknown_eq, h.kind_eq, h.label_eq]
  exact .refl _

theorem ofNumber_agrees (text : String) (span : Option Span)
    {x y : Except Decimal.Signal Decimal} (h : Decimal.SameResult x y) :
    Agrees Alike (ofNumber text span x) (ofNumber text span y) := by
  cases h with
  | ok hab => exact .ok (.number hab)
  | error _ => exact .fail (by rfl)

theorem applyToNumbers_agrees (operator : Operator) {a a' b b' : Decimal}
    (ha : a.toRat = a'.toRat) (hb : b.toRat = b'.toRat) (span : Option Span) :
    Agrees Alike (operator.applyToNumbers a b span) (operator.applyToNumbers a' b' span) := by
  have hctx := Decimal.Context.standard_isSane
  unfold applyToNumbers
  rw [Decimal.less_congr ha hb, Decimal.less_congr hb ha, Decimal.compare_congr ha hb,
    Decimal.sign_congr hb]
  cases operator with
  | lt | le | gt | ge => exact .ok (.bool _)
  | add => exact ofNumber_agrees _ span (Decimal.add_congr hctx ha hb)
  | sub => exact ofNumber_agrees _ span (Decimal.subtract_congr hctx ha hb)
  | mul => exact ofNumber_agrees _ span (Decimal.multiply_congr hctx ha hb)
  | div =>
    exact .ite Iff.rfl (fun _ => .fail (by rfl)) fun _ =>
      ofNumber_agrees _ span (Decimal.divide_congr hctx ha hb)
  | mod =>
    exact .ite Iff.rfl (fun _ => .fail (by rfl)) fun _ =>
      ofNumber_agrees _ span (Decimal.remainder_congr hctx ha hb)
  | eq | ne | and | or | neg | not => exact .error (.refl _)

theorem applyBinary_agrees (operator : Operator) (span : Option Span) (h : Alike v w)
    (h' : Alike k l) :
    Agrees Alike (operator.applyBinary v k span) (operator.applyBinary w l span) := by
  have hkinds : ∀ {kind : Kind} {next next' : Outcome Value}, Agrees Alike next next' →
      Agrees Alike
        (do
          requireKind v kind operator.text span
          requireKind k kind operator.text span
          next)
        (do
          requireKind w kind operator.text span
          requireKind l kind operator.text span
          next') :=
    fun hnext => (requireKind_agrees _ _ span h).bind fun _ _ _ _ _ =>
      (requireKind_agrees _ _ span h').bind fun _ _ _ _ _ => hnext
  cases operator with
  | neg | not => exact .error (.refl _)
  | eq | ne =>
    unfold applyBinary
    rw [h.containsUnknown_eq, h'.containsUnknown_eq, h.equals_congr h']
    exact .ite Iff.rfl (fun _ => .ok .unknown) fun _ => .ok (.bool _)
  | and | or =>
    refine hkinds ?_
    cases h with
    | bool a =>
      cases h' with
      | bool b => exact .pure (.bool _)
      | _ => exact .pure .unknown
    | _ => exact .pure .unknown
  | add | sub | mul | div | mod | lt | le | gt | ge =>
    refine hkinds ?_
    cases h with
    | number ha =>
      cases h' with
      | number hb => exact applyToNumbers_agrees _ ha hb span
      | _ => exact .pure .unknown
    | _ => exact .pure .unknown

theorem applyUnary_agrees (operator : Operator) (span : Option Span) (h : Alike v w) :
    Agrees Alike (operator.applyUnary v span) (operator.applyUnary w span) := by
  cases operator with
  | neg =>
    refine (requireKind_agrees _ _ span h).bind fun _ _ _ _ _ => ?_
    cases h with
    | number ha =>
      exact ofNumber_agrees _ span (Decimal.minus_congr Decimal.Context.standard_isSane ha)
    | _ => exact .pure .unknown
  | not =>
    refine (requireKind_agrees _ _ span h).bind fun _ _ _ _ _ => ?_
    cases h with
    | bool b => exact .pure (.bool _)
    | _ => exact .pure .unknown
  | add | sub | mul | div | mod | eq | ne | lt | le | gt | ge | and | or => exact .error (.refl _)

end Operator

/-! ## Access to parts -/

namespace Value

variable {vs ws : List Value} {fs gs : List (String × Value)}

theorem fieldOf_agrees (h : Table.Similar Alike fs gs) (name : String) (span : Option Span) :
    Agrees Alike (fieldOf fs name span) (fieldOf gs name span) := by
  have hget := h.get? name
  unfold fieldOf
  generalize Table.get? fs name = found at hget
  generalize Table.get? gs name = found' at hget
  cases hget with
  | some hvw => exact .ok hvw
  | none => exact .fail (by rfl)

theorem elementAt_agrees (h : ItemsAlike vs ws) {a b : Decimal} (hab : a.toRat = b.toRat)
    (span : Option Span) :
    Agrees Alike (elementAt vs a span) (elementAt ws b span) := by
  unfold elementAt
  rw [Decimal.isWhole_congr hab, Decimal.toText_congr hab, Decimal.toInt_congr hab]
  have hshown : Agrees Eq (ofArithmetic b.toText) (ofArithmetic b.toText) := .refl _
  refine .ite Iff.rfl (fun _ => ?_) fun _ => ?_
  · exact hshown.bind fun _ _ _ _ _ => .fail_bind (by rfl)
  have hget : Option.Rel Alike (if b.toInt < 0 then none else vs[b.toInt.toNat]?)
      (if b.toInt < 0 then none else ws[b.toInt.toNat]?) := by
    split
    · exact .none
    · exact h.get? _
  dsimp only
  generalize (if b.toInt < 0 then none else vs[b.toInt.toNat]?) = found at hget
  generalize (if b.toInt < 0 then none else ws[b.toInt.toNat]?) = found' at hget
  cases hget with
  | some hvw => exact .pure hvw
  | none => exact hshown.bind fun _ _ _ _ _ => .fail (by rfl)

theorem element_agrees (span : Option Span) (h : Alike v w) (hkey : Alike k l) :
    Agrees Alike (v.element k span) (w.element l span) := by
  unfold element
  rw [h.isUnknown_eq, hkey.isUnknown_eq]
  refine .ite Iff.rfl (fun _ => .ok .unknown) fun _ => ?_
  cases h with
  | list hitems =>
    cases hkey with
    | number hab => exact elementAt_agrees hitems hab span
    | _ => exact .fail (by rfl)
  | map hdistinct hfields hperm | object hdistinct hfields hperm =>
    cases hkey with
    | string name => exact fieldOf_agrees (hfields.similar hdistinct hperm) name span
    | _ => exact .fail (by rfl)
  | null | unknown | bool | number | string | set => exact .fail (by rfl)

theorem field_agrees (name : String) (span : Option Span) (h : Alike v w) :
    Agrees Alike (v.field name span) (w.field name span) := by
  cases h with
  | unknown => exact .ok .unknown
  | map hdistinct hfields hperm | object hdistinct hfields hperm =>
    exact fieldOf_agrees (hfields.similar hdistinct hperm) name span
  | null | bool | number | string | list | set => exact .fail (by rfl)

/-- The elements of lists with their places. -/
private theorem zipIdx_alike (h : ItemsAlike vs ws) (place : Nat) :
    List.Forall₂ (fun p q : Value × Nat => Alike p.1 q.1 ∧ p.2 = q.2) (vs.zipIdx place)
      (ws.zipIdx place) := by
  induction vs generalizing ws place with
  | nil => cases h; exact .nil
  | cons v vs ih =>
    cases h with
    | cons hhead htail => exact .cons ⟨hhead, rfl⟩ (ih htail (place + 1))

/-- What is iterated over comes in the same order, under keys that are alike. -/
theorem iteration_agrees (span : Option Span) (h : Alike v w) :
    Agrees (List.Forall₂ fun p q => Alike p.1 q.1 ∧ Alike p.2 q.2) (v.iteration span)
      (w.iteration span) := by
  cases h with
  | list hitems =>
    refine .ok (List.forall₂_map_left_iff.mpr (List.forall₂_map_right_iff.mpr ?_))
    refine (zipIdx_alike hitems 0).imp fun p q hpq => ⟨?_, hpq.1⟩
    exact .number (congrArg (fun n => (Decimal.ofNat n).toRat) hpq.2)
  | set hitems =>
    refine .ok (List.forall₂_map_left_iff.mpr (List.forall₂_map_right_iff.mpr ?_))
    exact (itemsAlike_iff.mp hitems).imp fun _ _ hvw => ⟨hvw, hvw⟩
  | map hdistinct hfields hperm | object hdistinct hfields hperm =>
    refine .ok (List.forall₂_map_left_iff.mpr (List.forall₂_map_right_iff.mpr ?_))
    refine (hfields.similar hdistinct hperm).sortKeys.entries.imp ?_
    rintro ⟨key, v⟩ ⟨_, w⟩ ⟨rfl, hvw⟩
    exact ⟨.string _, hvw⟩
  | null | unknown | bool | number | string => exact .fail (by rfl)

end Value

/-! ## Conditions and texts -/

theorem truth?_agrees (context : String) (span : Option Span) (h : Alike v w) :
    Agrees Eq (truth? v context span) (truth? w context span) := by
  cases h with
  | unknown | bool => exact .refl _
  | null | number | string | list | set | map | object => exact .fail (by rfl)

theorem primitiveText_agrees (h : Alike v w) : Agrees Eq v.primitiveText w.primitiveText := by
  cases h with
  | number hab =>
    simp only [primitiveText, Decimal.toText_congr hab]
    exact .refl _
  | string | bool => exact .refl _
  | null | unknown | list | set | map | object => exact .fail (by rfl)

theorem keyText_agrees (span : Option Span) (h : Alike v w) :
    Agrees Eq (keyText v span) (keyText w span) := by
  unfold keyText
  rw [h.kind_eq]
  exact .ite Iff.rfl (fun _ => primitiveText_agrees h) fun _ => .fail (by rfl)

theorem interpolatedText?_agrees (span : Option Span) (h : Alike v w) :
    Agrees Eq (interpolatedText? v span) (interpolatedText? w span) := by
  unfold interpolatedText?
  rw [h.isUnknown_eq, h.kind_eq]
  refine .ite Iff.rfl (fun _ => .refl _) fun _ => ?_
  refine .ite Iff.rfl (fun _ => ?_) fun _ => .fail (by rfl)
  exact (primitiveText_agrees h).map fun _ _ htext => congrArg some htext

end Groundplan
