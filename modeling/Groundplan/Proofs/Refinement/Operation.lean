import Groundplan.Expr.Evaluation
import Groundplan.Proofs.Outcome
import Groundplan.Proofs.Refinement.Value

/-!
# Operations on Partly Unknown Values

Operators, access to parts, conditions and texts foresee themselves: on refined operands they
succeed only if they do on the original ones, and then with a refined result.

## Main Definitions

- `SettledBy`: an answer that, if it is known, stays the same

## Main Statements

- `Operator.applyBinary_foresees`, `Operator.applyUnary_foresees`
- `Value.element_foresees`, `Value.field_foresees`, `Value.iteration_foresees`
-/

namespace Groundplan

open Value

variable {v w : Value}

/-! ## Operators -/

namespace Operator

/-- An operand that passes the check for a primitive kind is unknown or stays as it is. -/
theorem requireKind_foresees {kind : Kind} (hkind : kind.isPrimitive = true) (text : String)
    (span : Option Span) (h : RefinedBy v w) :
    Foresees (fun _ _ : Unit => v = .unknown ∨ w = v) (requireKind v kind text span)
      (requireKind w kind text span) := by
  rcases h.unknown_or_kind_eq with rfl | ⟨hw, hknown⟩
  · exact .of_forall _ fun _ => .inl rfl
  · unfold requireKind
    rw [hknown, hw, Bool.false_or]
    cases hv : decide (v.kind = kind) with
    | false => exact .error _ _
    | true =>
      have hprimitive : v.kind.isPrimitive = true := by
        rw [of_decide_eq_true hv]
        exact hkind
      rw [Bool.or_true]
      exact .ok (.inr (h.eq_of_primitive hprimitive))

theorem applyBinary_foresees (operator : Operator) (span : Option Span) {v' w' : Value}
    (h : RefinedBy v w) (h' : RefinedBy v' w') :
    Foresees RefinedBy (operator.applyBinary v v' span) (operator.applyBinary w w' span) := by
  cases operator with
  | eq | ne =>
    cases hknown : v.containsUnknown || v'.containsUnknown with
    | true =>
      simp only [applyBinary, hknown, if_true]
      exact .of_forall _ .unknown
    | false =>
      obtain ⟨hv, hv'⟩ := Bool.or_eq_false_iff.mp hknown
      rw [h.eq_of_known hv, h'.eq_of_known hv']
      exact .of_eq RefinedBy.refl
  | neg | not => exact .error _ _
  | and | or | add | sub | mul | div | mod | lt | le | gt | ge =>
    refine (requireKind_foresees rfl _ span h).bind fun _ _ hv => ?_
    refine (requireKind_foresees rfl _ span h').bind fun _ _ hv' => ?_
    rcases hv with rfl | rfl
    · exact .of_forall _ .unknown
    · rcases hv' with rfl | rfl
      · cases w <;> exact .of_forall _ .unknown
      · exact .of_eq RefinedBy.refl

theorem applyUnary_foresees (operator : Operator) (span : Option Span) (h : RefinedBy v w) :
    Foresees RefinedBy (operator.applyUnary v span) (operator.applyUnary w span) := by
  cases operator with
  | neg | not =>
    refine (requireKind_foresees rfl _ span h).bind fun _ _ hv => ?_
    rcases hv with rfl | rfl
    · exact .of_forall _ .unknown
    · exact .of_eq RefinedBy.refl
  | add | sub | mul | div | mod | eq | ne | lt | le | gt | ge | and | or => exact .error _ _

end Operator

/-! ## Access to parts -/

namespace Value

theorem fieldOf_foresees {fs gs : List (String × Value)} (h : FieldsRefinedBy fs gs)
    (name : String) (span : Option Span) :
    Foresees RefinedBy (fieldOf fs name span) (fieldOf gs name span) := by
  have hget := h.related.get? name
  unfold fieldOf
  generalize Table.get? fs name = found at hget
  generalize Table.get? gs name = found' at hget
  cases hget with
  | none => exact .error _ _
  | some hv => exact .ok hv

theorem elementAt_foresees {vs ws : List Value} (h : ItemsRefinedBy vs ws) (index : Decimal)
    (span : Option Span) :
    Foresees RefinedBy (elementAt vs index span) (elementAt ws index span) := by
  unfold elementAt
  cases index.isWhole with
  | false => exact .error_bind _ fun _ => ⟨_, rfl⟩
  | true =>
  have hget : Option.Rel RefinedBy (if index.toInt < 0 then none else vs[index.toInt.toNat]?)
      (if index.toInt < 0 then none else ws[index.toInt.toNat]?) := by
    split
    · exact .none
    · exact h.get? _
  simp only [Bool.not_true, Bool.false_eq_true, if_false]
  generalize (if index.toInt < 0 then none else vs[index.toInt.toNat]?) = found at hget
  generalize (if index.toInt < 0 then none else ws[index.toInt.toNat]?) = found' at hget
  cases hget with
  | none => exact .error_bind _ fun _ => ⟨_, rfl⟩
  | some hv => exact .ok hv

theorem element_foresees {key key' : Value} (span : Option Span) (h : RefinedBy v w)
    (hkey : RefinedBy key key') :
    Foresees RefinedBy (v.element key span) (w.element key' span) := by
  cases hknown : v.isUnknown || key.isUnknown with
  | true =>
    simp only [element, hknown, if_true]
    exact .of_forall _ .unknown
  | false =>
  obtain ⟨hv, hk⟩ := Bool.or_eq_false_iff.mp hknown
  simp only [element, hv, hk, h.isUnknown_eq_false hv, hkey.isUnknown_eq_false hk, Bool.or_false,
    Bool.false_eq_true, if_false]
  cases h with
  | unknown => simp [isUnknown] at hv
  | null | bool | number | string | set => exact .error _ _
  | list hitems =>
    cases hkey with
    | unknown => simp [isUnknown] at hk
    | number index => exact elementAt_foresees hitems index span
    | null | bool | string | set | list | map | object => exact .error _ _
  | map hfields | object hfields =>
    cases hkey with
    | unknown => simp [isUnknown] at hk
    | string name => exact fieldOf_foresees hfields name span
    | null | bool | number | set | list | map | object => exact .error _ _

theorem field_foresees (name : String) (span : Option Span) (h : RefinedBy v w) :
    Foresees RefinedBy (v.field name span) (w.field name span) := by
  cases h with
  | unknown => exact .of_forall _ .unknown
  | map hfields | object hfields => exact fieldOf_foresees hfields name span
  | null | bool | number | string | set | list => exact .error _ _

/-- The elements of lists with their places. -/
private theorem zipIdx_refinedBy {vs ws : List Value} (h : ItemsRefinedBy vs ws) (place : Nat) :
    List.Forall₂ (fun a b : Value × Nat => b.2 = a.2 ∧ RefinedBy a.1 b.1) (vs.zipIdx place)
      (ws.zipIdx place) := by
  induction vs generalizing ws place with
  | nil => cases h; exact .nil
  | cons v vs ih =>
    cases h with
    | cons hhead htail => exact .cons ⟨rfl, hhead⟩ (ih htail (place + 1))

/-- What is iterated over keeps its places and keys. -/
theorem iteration_foresees (span : Option Span) (h : RefinedBy v w) (hv : v.isUnknown = false) :
    Foresees (List.Forall₂ fun p q : Value × Value => q.1 = p.1 ∧ RefinedBy p.2 q.2)
      (v.iteration span) (w.iteration span) := by
  cases h with
  | unknown => simp [isUnknown] at hv
  | null | bool | number | string => exact .error _ _
  | set items =>
    refine .ok (List.forall₂_map_left_iff.mpr (List.forall₂_map_right_iff.mpr ?_))
    exact List.forall₂_same.mpr fun item _ => ⟨rfl, RefinedBy.refl item⟩
  | list hitems =>
    refine .ok (List.forall₂_map_left_iff.mpr (List.forall₂_map_right_iff.mpr ?_))
    refine (zipIdx_refinedBy hitems 0).imp fun a b hab => ⟨?_, hab.2⟩
    exact congrArg ofNat hab.1
  | map hfields | object hfields =>
    refine .ok (List.forall₂_map_left_iff.mpr (List.forall₂_map_right_iff.mpr ?_))
    refine hfields.sortKeys.related.entries.imp fun a b hab => ⟨?_, hab.2⟩
    exact congrArg Value.string hab.1

end Value

/-! ## Conditions and texts -/

/-- An answer that, if it is known, stays the same. -/
def SettledBy {α : Type} (a b : Option α) : Prop :=
  a = none ∨ b = a

theorem SettledBy.refl {α : Type} (a : Option α) : SettledBy a a :=
  .inr rfl

theorem truth?_foresees (context : String) (span : Option Span) (h : RefinedBy v w) :
    Foresees SettledBy (truth? v context span) (truth? w context span) := by
  cases h with
  | unknown => exact .of_forall _ fun _ => .inl rfl
  | bool b => exact .ok (.inr rfl)
  | null | number | string | set | list | map | object => exact .error _ _

theorem keyText_foresees (span : Option Span) (h : RefinedBy v w) (hv : v.isUnknown = false) :
    Foresees Eq (keyText v span) (keyText w span) := by
  cases hprimitive : v.kind.isPrimitive with
  | true =>
    rw [h.eq_of_primitive hprimitive]
    exact .of_eq fun _ => rfl
  | false =>
    unfold keyText
    rw [h.kind_eq hv, hprimitive]
    exact .error _ _

theorem interpolatedText?_foresees (span : Option Span) (h : RefinedBy v w) :
    Foresees SettledBy (interpolatedText? v span) (interpolatedText? w span) := by
  cases hv : v.isUnknown with
  | true =>
    simp only [interpolatedText?, hv, if_true]
    exact .of_forall _ fun _ => .inl rfl
  | false =>
    cases hprimitive : v.kind.isPrimitive with
    | true =>
      rw [h.eq_of_primitive hprimitive]
      exact .of_eq SettledBy.refl
    | false =>
      unfold interpolatedText?
      rw [h.isUnknown_eq_false hv, h.kind_eq hv, hprimitive]
      exact .error _ _

theorem SettledBy.appendKnown {a a' b b' : Option String} (h : SettledBy a b)
    (h' : SettledBy a' b') :
    SettledBy (Groundplan.appendKnown a a') (Groundplan.appendKnown b b') := by
  rcases h with rfl | rfl
  · exact .inl rfl
  · rcases h' with rfl | rfl
    · exact .inl (by cases b <;> rfl)
    · exact .inr rfl

end Groundplan
