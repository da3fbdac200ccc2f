import Groundplan.Expr.Evaluation
import Groundplan.Expr.References

/-!
# Laws of Evaluation

Equations of the evaluator in the form in which proofs use them: a call by the function
that is called, a comprehension by the turn it takes for every element.

## Main Definitions

- `keepsElement`, `contribution`, `elementTurn`: one turn of a comprehension
- `Expr.calls`: the names of the functions that an expression calls

## Main Statements

- `evaluate_comprehension`: a comprehension collects the turns of the elements
- `evaluate_listComprehension`: without a filter and keys it is the list of its values
-/

namespace Groundplan

/-! ## Calls -/

mutual

/-- The names of the functions that an expression calls, at any depth. -/
def Expr.calls : Expr → List String
  | .literal .. | .ref .. => []
  | .index _ collection key => collection.calls ++ key.calls
  | .access _ target _ => target.calls
  | .call _ function arguments => function :: callsOfAll arguments
  | .conditional _ condition whenTrue whenFalse =>
    condition.calls ++ whenTrue.calls ++ whenFalse.calls
  | .binary _ _ left right => left.calls ++ right.calls
  | .unary _ _ operand => operand.calls
  | .list _ items => callsOfAll items
  | .object _ items => callsOfPairs items
  | .comprehension _ collection _ _ filter key value _ =>
    collection.calls ++ value.calls
      ++ (match key with
        | some key => key.calls
        | none => [])
      ++ (match filter with
        | some filter => filter.calls
        | none => [])
  | .splat _ source path => source.calls ++ callsOfSteps path
  | .template _ parts => callsOfParts parts
  | .stray directive => directive.calls

/-- The names of the functions that some expressions call. -/
def callsOfAll : List Expr → List String
  | [] => []
  | e :: es => e.calls ++ callsOfAll es

/-- The names of the functions that keys and values call. -/
def callsOfPairs : List (Expr × Expr) → List String
  | [] => []
  | (key, value) :: rest => key.calls ++ value.calls ++ callsOfPairs rest

/-- The names of the functions that the steps of a splat call. -/
def callsOfSteps : List Step → List String
  | [] => []
  | .access _ :: rest => callsOfSteps rest
  | .index key :: rest => key.calls ++ callsOfSteps rest

/-- The names of the functions that parts of a template call. -/
def callsOfParts : List Part → List String
  | [] => []
  | .text _ :: rest => callsOfParts rest
  | .interpolation expression :: rest => expression.calls ++ callsOfParts rest
  | .directive directive :: rest => directive.calls ++ callsOfParts rest

/-- The names of the functions that a directive calls. -/
def Directive.calls : Directive → List String
  | .ifElse _ condition thenParts elseParts =>
    condition.calls ++ callsOfParts thenParts ++ callsOfParts elseParts
  | .forEach _ collection _ _ body => collection.calls ++ callsOfParts body

end

/-- A call of any other function evaluates all arguments first. -/
theorem evaluate_call (library : Library) (span : Option Span) {function : String}
    (arguments : List Expr) (scope : Scope) (htry : function ≠ "try") (hcan : function ≠ "can") :
    (Expr.call span function arguments).evaluate library scope
      = (evaluateAll library arguments scope).bind fun values =>
          library.call function values span := by
  match arguments with
  | [] | [_] | _ :: _ :: _ => simp [Expr.evaluate, htry, hcan, bind]

/-! ## Comprehensions -/

/-- Whether the filter of a comprehension keeps an element. -/
def keepsElement (library : Library) (span : Option Span) (filter : Option Expr)
    (inner : Scope) : Outcome (Option Bool) :=
  match filter with
  | none => return some true
  | some filter => do truth? (← filter.evaluate library inner) "for expression filter" span

/-- What an element that is kept adds to a comprehension. -/
def contribution (library : Library) (span : Option Span) (key : Option Expr) (value : Expr)
    (inner : Scope) : Outcome Turn :=
  match key with
  | none => do return .item (← value.evaluate library inner)
  | some key => do
    let key ← key.evaluate library inner
    let v ← value.evaluate library inner
    if key.isUnknown then return .undecided
    return .entry (← keyText key span) v

/-- What a comprehension makes of one element. -/
def elementTurn (library : Library) (span : Option Span) (filter key : Option Expr)
    (value : Expr) (inner : Scope) : Outcome Turn := do
  match ← keepsElement library span filter inner with
  | none => return .undecided
  | some false => return .skipped
  | some true => contribution library span key value inner

/-- A kept element is put down at once, as the evaluator does it. -/
private theorem contribution_bind {α : Type} (library : Library) (span : Option Span)
    (key : Expr) (value : Expr) (inner : Scope) (next : Turn → Outcome α) :
    contribution library span (some key) value inner >>= next = (do
      let key ← key.evaluate library inner
      let v ← value.evaluate library inner
      if key.isUnknown then next .undecided
      else do
        let text ← keyText key span
        next (.entry text v)) := by
  simp only [contribution, bind_assoc]
  refine bind_congr fun k => bind_congr fun v => ?_
  split <;> simp

/-- A comprehension collects the turns of the elements one after another. -/
theorem evaluate_comprehension (library : Library) (span : Option Span) (collection : Expr)
    (keyName : Option String) (valueName : String) (filter key : Option Expr) (value : Expr)
    (grouping : Bool) (scope : Scope) :
    (Expr.comprehension span collection keyName valueName filter key value grouping).evaluate
        library scope = (do
      let collection ← collection.evaluate library scope
      if collection.isUnknown then return .unknown
      let pairs ← collection.iteration span
      let harvest ← pairs.foldlM (fun harvest pair => do
        let turn ← elementTurn library span filter key value
          (iterationScope scope keyName valueName pair.1 pair.2)
        harvest.add grouping span turn) Harvest.empty
      return harvest.result key.isSome grouping) := by
  simp only [Expr.evaluate]
  refine bind_congr fun c => ?_
  split
  · rfl
  refine bind_congr fun pairs => ?_
  congr 2
  funext harvest pair
  cases filter with
  | none =>
    simp only [elementTurn, keepsElement, pure_bind]
    cases key with
    | none => simp [contribution]
    | some key => rw [contribution_bind]
  | some filter =>
    simp only [elementTurn, keepsElement, bind_assoc]
    refine bind_congr fun v => bind_congr fun kept => ?_
    rcases kept with _ | _ | _
    · simp
    · simp
    · cases key with
      | none => simp [contribution]
      | some key => simp only [contribution_bind, pure_bind]

/-! ## Lists -/

/-- Elements that are collected one after another make a list. -/
theorem foldlM_items {α : Type} (span : Option Span) (f : α → Outcome Value) (xs : List α)
    (h : Harvest) :
    xs.foldlM (fun h x => do h.add false span (.item (← f x))) h = (do
      return { h with items := h.items ++ (← xs.mapM f) }) := by
  induction xs generalizing h with
  | nil => simp
  | cons x rest ih =>
    simp only [List.foldlM_cons, List.mapM_cons, bind_assoc, pure_bind]
    refine bind_congr fun v => ?_
    refine (ih { h with items := h.items ++ [v] }).trans ?_
    simp

/-- Without a filter and keys, a comprehension is the list of its values. -/
theorem evaluate_listComprehension (library : Library) (span : Option Span) (collection : Expr)
    (keyName : Option String) (valueName : String) (value : Expr) (scope : Scope) :
    (Expr.comprehension span collection keyName valueName none none value false).evaluate library
        scope = (do
      let collection ← collection.evaluate library scope
      if collection.isUnknown then return .unknown
      let pairs ← collection.iteration span
      .list <$> pairs.mapM fun pair =>
        value.evaluate library (iterationScope scope keyName valueName pair.1 pair.2)) := by
  rw [evaluate_comprehension]
  refine bind_congr fun c => ?_
  split
  · rfl
  refine bind_congr fun pairs => ?_
  simp only [elementTurn, keepsElement, contribution, pure_bind, bind_assoc]
  rw [foldlM_items]
  simp [Harvest.result, Harvest.empty]

end Groundplan
