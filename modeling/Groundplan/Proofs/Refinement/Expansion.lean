import Groundplan.Expansion
import Groundplan.Proofs.Outcome
import Groundplan.Proofs.Refinement.Value

/-!
# Refined Expansions

Once the instances of a template are known, they stay when the value that they come from is
refined: the same keys in the same order, each with refined bindings.  Deferred instances may turn
out to be any.

## Main Definitions

- `Expansion.RefinedBy`

## Main Statements

- `Expansion.named_related`: names come from keys alone
- `Expansion.ofValue_foresees`: refined values make refined expansions
-/

namespace Groundplan

open Value

namespace Expansion

/-- Deferred instances may become any; known ones stay, and their bindings are refined. -/
inductive RefinedBy : Expansion → Expansion → Prop where
  | deferred (address : String) (e : Expansion) : RefinedBy (.deferred address) e
  | known (address : String) (mode : ExpansionMode) (keys : List (Option InstanceKey))
      {bindings bindings' : Table (Option InstanceKey) (Table SymbolPath Value)} :
      Table.Related (Table.Related Value.RefinedBy) bindings bindings' →
      RefinedBy ⟨address, mode, keys, bindings⟩ ⟨address, mode, keys, bindings'⟩

namespace RefinedBy

@[refl]
theorem refl (e : Expansion) : RefinedBy e e :=
  .known e.address e.mode e.keys (.refl (fun bindings => .refl Value.RefinedBy.refl bindings) _)

variable {e e' : Expansion}

/-- Known instances stay. -/
theorem eq_of_known (h : RefinedBy e e') (hknown : e.isDeferred = false) :
    e'.address = e.address ∧ e'.mode = e.mode ∧ e'.keys = e.keys := by
  cases h with
  | deferred => cases hknown
  | known => exact ⟨rfl, rfl, rfl⟩

theorem of_keys_eq (haddress : e'.address = e.address) (hmode : e'.mode = e.mode)
    (hkeys : e'.keys = e.keys)
    (hbindings : Table.Related (Table.Related Value.RefinedBy) e.bindings e'.bindings) :
    RefinedBy e e' := by
  cases e
  cases e'
  cases haddress
  cases hmode
  cases hkeys
  exact .known _ _ _ hbindings

/-- The scope of an instance binds refined values. -/
theorem bindingsFor (h : RefinedBy e e') (hknown : e.isDeferred = false)
    (key : Option InstanceKey) :
    Table.Related Value.RefinedBy (e.bindingsFor key) (e'.bindingsFor key) := by
  cases h with
  | deferred => cases hknown
  | known _ _ _ hbindings =>
    have hget := hbindings.get? key
    unfold Expansion.bindingsFor
    dsimp only
    generalize Table.get? _ key = found at hget ⊢
    generalize Table.get? _ key = found' at hget ⊢
    cases hget with
    | none => exact .nil
    | some hfound => exact hfound

end RefinedBy

/-- Instances are named by keys, so that related values under the same keys get the same names and
related bindings. -/
theorem named_related (address : String) {R : Value → Value → Prop}
    {fs gs : List (String × Value)} (hstring : ∀ s, R (.string s) (.string s))
    (h : Table.Related R (Sorting.sortKeys fs) (Sorting.sortKeys gs)) :
    (named address gs).keys = (named address fs).keys
      ∧ Table.Related (Table.Related R) (named address fs).bindings
        (named address gs).bindings := by
  simp only [named]
  generalize Sorting.sortKeys fs = entries at h ⊢
  generalize Sorting.sortKeys gs = entries' at h ⊢
  induction h with
  | nil => exact ⟨rfl, .nil⟩
  | cons key hvalue _ ih =>
    obtain ⟨hkeys, hbindings⟩ := ih
    constructor
    · rw [List.map_cons, List.map_cons, hkeys]
    · exact .cons _ (.cons _ (hstring key) (.cons _ hvalue .nil)) hbindings

theorem named_refines (address : String) {fs gs : List (String × Value)}
    (h : FieldsRefinedBy fs gs) : RefinedBy (named address fs) (named address gs) := by
  obtain ⟨hkeys, hbindings⟩ := named_related address (fun _ => .refl _) h.sortKeys.related
  exact .of_keys_eq rfl rfl hkeys hbindings

/-- Refined values make refined expansions. -/
theorem ofValue_foresees (limit : Int) (address : String) (span : Option Span) {v w : Value}
    (h : Value.RefinedBy v w) :
    Foresees RefinedBy (ofValue limit address v span) (ofValue limit address w span) := by
  cases h with
  | unknown w => exact .of_forall _ (.deferred address)
  | null | bool | number | string | set => exact .of_eq .refl
  | list => exact .error _ _
  | map hfields | object hfields =>
    simp only [ofValue]
    rw [hfields.length_eq]
    exact .guard fun _ _ => .ok (named_refines address hfields)

end Expansion

end Groundplan
