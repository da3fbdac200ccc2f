import Groundplan.Expr.Basic
import Groundplan.Library.Standard
import Groundplan.Scope
import Groundplan.Value.Access
import Groundplan.Value.Operation

/-!
# Evaluation of expressions

An expression is evaluated in a scope to a value.  Unknown propagates: whatever reads an unknown
operand, part or condition is unknown instead of failing.  Only the calls `try` and `can` absorb
errors; defects pass through them.

## Main definitions

- `Expr.evaluate`: the value of an expression, given a library of functions
- `Harvest`: what a comprehension has collected
-/

namespace Groundplan

/-! ## Keys and texts -/

/-- The text of a value as a key. -/
def keyText (key : Value) (span : Option Span) : Outcome String :=
  if key.kind.isPrimitive then key.primitiveText
  else fail (.typeMismatch "string" key.label (some "map key")) span

/-- The text of a value in a template; that of unknown is not known. -/
def interpolatedText? (v : Value) (span : Option Span) : Outcome (Option String) :=
  if v.isUnknown then .ok none
  else if v.kind.isPrimitive then v.primitiveText.map some
  else fail (.typeMismatch "string" v.label (some "template interpolation")) span

/-- Two texts, one behind the other, unless one of them is not known. -/
def appendKnown (a b : Option String) : Option String :=
  a.bind fun a => b.map (a ++ ·)

/-- The truth of a condition; that of unknown is not known. -/
def truth? (condition : Value) (context : String) (span : Option Span) : Outcome (Option Bool) :=
  match condition with
  | .unknown => .ok none
  | .bool b => .ok (some b)
  | v => fail (.typeMismatch "bool" v.label (some context)) span

/-- The scope inside of a comprehension or directive, for one element. -/
def iterationScope (scope : Scope) (keyName : Option String) (valueName : String)
    (key value : Value) : Scope :=
  let keyBinding := match keyName with
    | some name => [(SymbolPath.bound name, key)]
    | none => []
  scope.child ((SymbolPath.bound valueName, value) :: keyBinding)

/-! ## Comprehensions -/

/-- What a comprehension makes of one element. -/
inductive Turn where
  /-- The filter refuses the element. -/
  | skipped
  /-- Whether or where the element belongs to the result is not known. -/
  | undecided
  | item (v : Value)
  | entry (key : String) (v : Value)

/-- What a comprehension has collected. -/
structure Harvest where
  /-- Some turn was undecided. -/
  undecided : Bool
  items : List Value
  /-- The values under each key; several only if the comprehension groups. -/
  entries : Table String (List Value)

namespace Harvest

/-- Nothing collected. -/
def empty : Harvest := ⟨false, [], []⟩

/-- Collect what one turn gives. -/
def add (h : Harvest) (grouping : Bool) (span : Option Span) : Turn → Outcome Harvest
  | .skipped => .ok h
  | .undecided => .ok { h with undecided := true }
  | .item v => .ok { h with items := h.items ++ [v] }
  | .entry key v =>
    match Table.get? h.entries key with
    | none => .ok { h with entries := Table.put h.entries key [v] }
    | some earlier =>
      if grouping then .ok { h with entries := Table.put h.entries key (earlier ++ [v]) }
      else fail (.duplicateKey key) span

/-- The value of a comprehension with or without keys. -/
def result (h : Harvest) (keyed grouping : Bool) : Value :=
  if h.undecided then .unknown
  else if !keyed then .list h.items
  else if grouping then .map (h.entries.map fun (key, values) => (key, .list values))
  else .map (h.entries.flatMap fun (key, values) => values.map (key, ·))

end Harvest

/-! ## Evaluation -/

mutual

/-- The value of an expression. -/
def Expr.evaluate (library : Library) : Expr → Scope → Outcome Value
  | .literal _ value, _ => .ok value
  | .ref span path, scope => scope.lookup path span
  | .index span collection key, scope => do
    let collection ← collection.evaluate library scope
    let key ← key.evaluate library scope
    collection.element key span
  | .access span target name, scope => do
    let target ← target.evaluate library scope
    target.field name span
  | .call span function arguments, scope =>
    if function = "try" then
      if arguments.isEmpty then fail (.arity "try" "at least 1" 0) span
      else evaluateFirst library span arguments [] scope
    else if function = "can" then
      match arguments with
      | [argument] =>
        match argument.evaluate library scope with
        | .ok _ => .ok (.bool true)
        | .error (.error _) => .ok (.bool false)
        -- A defect is no failure of the argument.
        | .error (.defect d) => .error (.defect d)
      | arguments => fail (.arity "can" "1" arguments.length) span
    else do
      let values ← evaluateAll library arguments scope
      library.call function values span
  | .conditional span condition whenTrue whenFalse, scope => do
    let condition ← condition.evaluate library scope
    match ← truth? condition "condition" span with
    | none => return .unknown
    | some true => whenTrue.evaluate library scope
    | some false => whenFalse.evaluate library scope
  | .binary span operator left right, scope => do
    let left ← left.evaluate library scope
    let right ← right.evaluate library scope
    operator.applyBinary left right span
  | .unary span operator operand, scope => do
    let operand ← operand.evaluate library scope
    operator.applyUnary operand span
  | .list _ items, scope => (evaluateAll library items scope).map .list
  | .object span items, scope => do
    match ← evaluateFields library span items false [] scope with
    | some fields => return .object fields
    | none => return .unknown
  | .comprehension span collection keyName valueName filter key value grouping, scope => do
    let collection ← collection.evaluate library scope
    if collection.isUnknown then return .unknown
    let pairs ← collection.iteration span
    let harvest ← pairs.foldlM (fun harvest pair => do
      let inner := iterationScope scope keyName valueName pair.1 pair.2
      let kept ← match filter with
        | none => pure (some true)
        | some filter => do
          truth? (← filter.evaluate library inner) "for expression filter" span
      let turn ← match kept with
        | none => pure .undecided
        | some false => pure .skipped
        | some true =>
          match key with
          | none => do pure (.item (← value.evaluate library inner))
          | some key => do
            let key ← key.evaluate library inner
            let v ← value.evaluate library inner
            -- Key and value are both evaluated before the key decides.
            if key.isUnknown then pure .undecided
            else pure (.entry (← keyText key span) v)
      harvest.add grouping span turn) Harvest.empty
    return harvest.result key.isSome grouping
  | .splat span source path, scope => do
    let source ← source.evaluate library scope
    match source with
    | .unknown => return .unknown
    | .null => return .list []
    | .list items | .set items =>
      .list <$> items.mapM fun item =>
        evaluateSteps library span path item (scope.child [(SymbolPath.splatItem, item)])
    | single =>
      let item ← evaluateSteps library span path single
        (scope.child [(SymbolPath.splatItem, single)])
      return .list [item]
  | .template span parts, scope => do
    match ← evaluateParts library span parts scope with
    | some text => return .string text
    | none => return .unknown
  | .stray directive, _ => .error (.defect (.strayDirective directive.form))

/-- The values of some expressions. -/
def evaluateAll (library : Library) : List Expr → Scope → Outcome (List Value)
  | [], _ => .ok []
  | e :: es, scope => do
    let v ← e.evaluate library scope
    return v :: (← evaluateAll library es scope)

/-- The value of the first expression that does not fail, where earlier ones have failed with
`failures`. -/
def evaluateFirst (library : Library) (span : Option Span) :
    List Expr → List Diagnostic → Scope → Outcome Value
  | [], failures, _ =>
    let last := match failures.getLast? with
      | some d => d.message
      | none => ""
    let problem := Problem.functionCall "try"
      ("no expression succeeded; the last error was: " ++ last)
    .error (.error ⟨problem, span, failures⟩)
  | e :: es, failures, scope =>
    match e.evaluate library scope with
    | .error (.error failure) =>
      evaluateFirst library span es (failures ++ [failure.diagnostic none]) scope
    | outcome => outcome

/-- The fields of an object constructor behind the `earlier` ones; nothing if some key is
unknown. -/
def evaluateFields (library : Library) (span : Option Span) :
    List (Expr × Expr) → Bool → Table String Value → Scope → Outcome (Option (Table String Value))
  | [], undecided, earlier, _ => .ok (if undecided then none else some earlier)
  | (key, value) :: rest, undecided, earlier, scope => do
    let k ← key.evaluate library scope
    let v ← value.evaluate library scope
    -- The other fields may still fail.
    if k.isUnknown then evaluateFields library span rest true earlier scope
    else
      let place := key.span.or span
      let name ← keyText k place
      if Table.has earlier name then fail (.duplicateKey name) place
      else evaluateFields library span rest undecided (Table.put earlier name v) scope

/-- Follow the steps of a splat from a value. -/
def evaluateSteps (library : Library) (span : Option Span) :
    List Step → Value → Scope → Outcome Value
  | [], v, _ => .ok v
  | .access name :: rest, v, scope => do
    let v ← v.field name span
    evaluateSteps library span rest v scope
  | .index key :: rest, v, scope => do
    let key ← key.evaluate library scope
    let v ← v.element key span
    evaluateSteps library span rest v scope

/-- The text of parts of a template, unless a part of it is not known.  All parts are evaluated. -/
def evaluateParts (library : Library) (span : Option Span) :
    List Part → Scope → Outcome (Option String)
  | [], _ => .ok (some "")
  | .text s :: rest, scope => do
    return appendKnown (some s) (← evaluateParts library span rest scope)
  | .interpolation expression :: rest, scope => do
    let v ← expression.evaluate library scope
    let text ← interpolatedText? v (expression.span.or span)
    return appendKnown text (← evaluateParts library span rest scope)
  | .directive directive :: rest, scope => do
    let text ← directive.evaluate library scope
    return appendKnown text (← evaluateParts library span rest scope)

/-- The text of a directive, unless a part of it is not known. -/
def Directive.evaluate (library : Library) : Directive → Scope → Outcome (Option String)
  | .ifElse span condition thenParts elseParts, scope => do
    let condition ← condition.evaluate library scope
    match ← truth? condition "template if condition" span with
    | none => return none
    | some true => evaluateParts library span thenParts scope
    | some false => evaluateParts library span elseParts scope
  | .forEach span collection keyName valueName body, scope => do
    let collection ← collection.evaluate library scope
    if collection.isUnknown then return none
    let pairs ← collection.iteration span
    pairs.foldlM (fun text pair => do
      let inner := iterationScope scope keyName valueName pair.1 pair.2
      return appendKnown text (← evaluateParts library span body inner)) (some "")

end

end Groundplan
