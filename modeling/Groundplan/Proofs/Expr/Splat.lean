import Groundplan.Proofs.Outcome
import Groundplan.Proofs.ScopeAgreement

/-!
# Splats

A splat visits the elements of its source and follows its steps from each of them.  The element has
a name in the scope of the steps, and no step that leaves this name alone can see it: every key of
a step has its value from the scope around the splat, also where it contains splats of its own,
which hide the name again.  So the comprehension that a splat stands for computes the same.

## Main Definitions

- `Value.splatItems`: the values that a splat visits
- `Step.follow`: one step from a value

## Main Statements

- `evaluateSteps_eq_foldlM`: steps are followed from left to right
- `evaluate_applySteps`: the expression that steps are written into
- `evaluate_splat_hygienic`
-/

namespace Groundplan

variable {library : Library} {span : Option Span}

/-! ## Steps -/

/-- The part or field of a value that a step leads to; the key of a part has its value from
`scope`. -/
def Step.follow (library : Library) (span : Option Span) (scope : Scope) (v : Value) :
    Step → Outcome Value
  | .access name => v.field name span
  | .index key => do v.element (← key.evaluate library scope) span

/-- Steps are followed one after another, from left to right. -/
theorem evaluateSteps_eq_foldlM (path : List Step) (v : Value) (scope : Scope) :
    evaluateSteps library span path v scope
      = path.foldlM (Step.follow library span scope) v := by
  induction path generalizing v with
  | nil =>
    rw [evaluateSteps]
    rfl
  | cons step rest ih =>
    cases step with
    | access name => simp only [evaluateSteps, ih, List.foldlM_cons, Step.follow]
    | index key => simp only [evaluateSteps, ih, List.foldlM_cons, Step.follow, bind_assoc]

/-- Steps that are written into an expression are followed from its value. -/
theorem evaluate_applySteps (target : Expr) (path : List Step) (scope : Scope) :
    (Expr.applySteps span target path).evaluate library scope = (do
      let v ← target.evaluate library scope
      path.foldlM (Step.follow library span scope) v) := by
  induction path generalizing target with
  | nil => simp [Expr.applySteps]
  | cons step rest ih =>
    simp only [Expr.applySteps] at ih
    rw [Expr.applySteps, List.foldl_cons, ih]
    cases step with
    | access name => simp only [Expr.evaluate, bind_assoc, List.foldlM_cons, Step.follow]
    | index key => simp only [Expr.evaluate, bind_assoc, List.foldlM_cons, Step.follow]

/-- Steps that do not mention the element of a splat cannot see it. -/
theorem followSteps_child {path : List Step}
    (hclosed : SymbolPath.splatItem ∉ referencesOfSteps path) (scope : Scope) (item v : Value) :
    path.foldlM (Step.follow library span (scope.child [(SymbolPath.splatItem, item)])) v
      = path.foldlM (Step.follow library span scope) v := by
  have hagree : Scope.AgreeOn (referencesOfSteps path)
      (scope.child [(SymbolPath.splatItem, item)]) scope := by
    intro symbol hsymbol place
    apply Scope.lookup_child_of_unbound
    have hne : SymbolPath.splatItem ≠ symbol := by
      rintro rfl
      exact hclosed hsymbol
    simp [Table.ofList, Table.putAll, Table.put, Table.get?, hne]
  rw [← evaluateSteps_eq_foldlM, ← evaluateSteps_eq_foldlM]
  exact evaluateSteps_congr library span path v hagree

/-! ## Sources -/

/-- The values that a splat visits: the elements of a list or set, none in null, and otherwise the
value itself. -/
def Value.splatItems : Value → List Value
  | .null => []
  | .list items | .set items => items
  | v => [v]

/-- The values of a list or set are visited in its order. -/
theorem Value.iteration_values {v : Value} (h : v.kind.isSequence = true) (span : Option Span) :
    ∃ pairs, v.iteration span = .ok pairs ∧ pairs.map Prod.snd = v.splatItems := by
  cases v with
  | list items =>
    refine ⟨_, rfl, ?_⟩
    simp [splatItems, Function.comp_def]
  | set items =>
    refine ⟨_, rfl, ?_⟩
    simp [splatItems, Function.comp_def]
  | null | unknown | bool | number | string | map | object => cases h

/-- A splat follows its steps from each value that it visits, in the scope around it. -/
theorem evaluate_splat {path : List Step}
    (hclosed : SymbolPath.splatItem ∉ referencesOfSteps path) (source : Expr) (scope : Scope) :
    (Expr.splat span source path).evaluate library scope = (do
      let v ← source.evaluate library scope
      if v.isUnknown then return .unknown
      .list <$> v.splatItems.mapM (path.foldlM (Step.follow library span scope))) := by
  simp only [Expr.evaluate, evaluateSteps_eq_foldlM, followSteps_child hclosed]
  refine bind_congr fun v => ?_
  cases v with
  | unknown | null | list | set => rfl
  | bool | number | string | map | object =>
    simp [Value.splatItems, Value.isUnknown]

/-! ## The comprehension of a splat -/

/-- The comprehension that a splat stands for visits the elements of a list or set in the same
way. -/
theorem evaluate_desugarSplat {path : List Step}
    (hclosed : SymbolPath.splatItem ∉ referencesOfSteps path) (source : Expr) (scope : Scope)
    (hsource : ∀ v, source.evaluate library scope = .ok v →
      v = .unknown ∨ v.kind.isSequence = true) :
    (Expr.desugarSplat span source path).evaluate library scope
      = (Expr.splat span source path).evaluate library scope := by
  -- In the body the element is the value of its name.
  have hbody : ∀ pair : Value × Value,
      (Expr.applySteps span (.ref span SymbolPath.splatItem) path).evaluate library
          (iterationScope scope none SymbolPath.splatItem.name pair.1 pair.2)
        = path.foldlM (Step.follow library span scope) pair.2 := by
    intro pair
    have hitem : (Expr.ref span SymbolPath.splatItem).evaluate library
        (scope.child [(SymbolPath.splatItem, pair.2)]) = .ok pair.2 := by
      rw [Expr.evaluate]
      exact Scope.lookup_child_of_bound scope span rfl
    show (Expr.applySteps span (.ref span SymbolPath.splatItem) path).evaluate library
      (scope.child [(SymbolPath.splatItem, pair.2)]) = _
    rw [evaluate_applySteps, hitem]
    exact followSteps_child hclosed scope pair.2 pair.2
  rw [evaluate_splat hclosed, Expr.desugarSplat, evaluate_listComprehension]
  cases hv : source.evaluate library scope with
  | error fault => rfl
  | ok v =>
    rcases hsource v hv with rfl | hsequence
    · rfl
    · obtain ⟨pairs, hpairs, hvalues⟩ := Value.iteration_values hsequence span
      have hknown : v.isUnknown = false := by
        cases v <;> first | rfl | cases hsequence
      simp only [hbody]
      show (if v.isUnknown then _ else _) = if v.isUnknown then _ else _
      rw [hknown, hpairs, ← hvalues, List.mapM_map]
      rfl

/-! ## Main statement -/

/-- **Splats are hygienic.**  A splat whose keys do not mention the element of a splat is unknown
for an unknown source, empty for null, and otherwise the list of what the steps lead to from each
element of a list or set, or from the source itself, where all keys have their values from the scope
around the splat; the first failure is that of the splat.  For lists, sets and unknown the
comprehension that the splat stands for does the same. -/
theorem evaluate_splat_hygienic (library : Library) (span : Option Span) (source : Expr)
    {path : List Step} (scope : Scope)
    (hclosed : SymbolPath.splatItem ∉ referencesOfSteps path) :
    (∀ fault, source.evaluate library scope = .error fault →
      (Expr.splat span source path).evaluate library scope = .error fault)
    ∧ (source.evaluate library scope = .ok .unknown →
      (Expr.splat span source path).evaluate library scope = .ok .unknown)
    ∧ (source.evaluate library scope = .ok .null →
      (Expr.splat span source path).evaluate library scope = .ok (.list []))
    ∧ (∀ v, source.evaluate library scope = .ok v → v ≠ .unknown →
      (Expr.splat span source path).evaluate library scope
        = .list <$> v.splatItems.mapM (path.foldlM (Step.follow library span scope)))
    ∧ ((∀ v, source.evaluate library scope = .ok v → v = .unknown ∨ v.kind.isSequence = true) →
      (Expr.desugarSplat span source path).evaluate library scope
        = (Expr.splat span source path).evaluate library scope) := by
  have hsplat := @evaluate_splat library span path hclosed source scope
  refine ⟨fun fault h => ?_, fun h => ?_, fun h => ?_, fun v h hknown => ?_,
    evaluate_desugarSplat hclosed source scope⟩
  · rw [hsplat, h]
    rfl
  · rw [hsplat, h]
    rfl
  · rw [hsplat, h]
    rfl
  · rw [hsplat, h]
    cases v with
    | unknown => exact absurd rfl hknown
    | null | bool | number | string | list | set | map | object => rfl

/-- The rows of a table at a place that is read off by a splat of its own. -/
theorem evaluate_splat_hygienic_nested :
    let rows := SymbolPath.bound "rows"
    let places := SymbolPath.bound "places"
    let place : Expr := .index none (.splat none (.ref none places) [.access "at"])
      (.literal none (.ofNat 0))
    let scope : Scope := Scope.child [] [
      (rows, .list [.list [.null, .bool true], .list [.string "a", .string "b"]]),
      (places, .list [.object [("at", .ofNat 1)]])]
    (Expr.splat none (.ref none rows) [.index place]).evaluate Library.standard scope
        = .ok (.list [.bool true, .string "b"])
      ∧ (Expr.desugarSplat none (.ref none rows) [.index place]).evaluate Library.standard scope
        = .ok (.list [.bool true, .string "b"]) := by
  intro rows places place scope
  have hclosed : SymbolPath.splatItem ∉ referencesOfSteps [.index place] := by
    decide
  obtain ⟨_, _, _, hsplat, hdesugar⟩ := evaluate_splat_hygienic Library.standard none
    (.ref none rows) scope hclosed
  have hfound := hsplat _ rfl (by simp)
  refine ⟨hfound, ?_⟩
  rw [hdesugar fun v hv => ?_]
  · exact hfound
  · cases hv
    exact .inr rfl

end Groundplan
