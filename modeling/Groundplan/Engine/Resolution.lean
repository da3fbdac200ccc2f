import Groundplan.Engine.State
import Groundplan.Expr.Evaluation

/-!
# Resolution of nodes

A node is evaluated once its dependencies have values, and what becomes of it is kept, so that it is
evaluated at most once.  A failure stays with its node; nodes that need it are skipped.

## Main definitions

- `Engine.rootScope`: what expressions of declarations see
- `Engine.evaluateNode`: the value of a node whose dependencies can be resolved
- `Engine.resolve`: the value of a node, evaluated if need be
-/

namespace Groundplan

namespace Engine

/-! ## Scopes -/

/-- The scope in which all declarations are seen, by the values that they have. -/
def rootScope (s : State) : Scope :=
  let resolver (path : SymbolPath) : Outcome Value :=
    match if path.kind.isReferenceable then s.value? (.ofAddress path.address) else none with
    | some v => .ok v
    | none => fail (.undefinedSymbol path.address []) none
  [⟨[], some resolver⟩]

/-! ## Input variables -/

/-- Check the conditions on an input variable in a scope that binds it. -/
def checkValidations (library : Library) (v : InputVariable) (scope : Scope) :
    List Validation → Outcome Unit
  | [] => .ok ()
  | rule :: rules => do
    match ← rule.condition.evaluate library scope with
    | .unknown | .bool true => checkValidations library v scope rules
    | .bool false => fail (.validation v.name rule.complaint) rule.span
    | other =>
      let context := "validation of " ++ (Declaration.input v).address
      fail (.typeMismatch "bool" other.label (some context)) rule.span

/-- The value of an input variable: the one supplied or else its default, converted to its
constraint, and subject to its conditions. -/
def inputValue (engine : Engine) (v : InputVariable) (scope : Scope) : Outcome Value := do
  let given ← match (Table.get? engine.inputs v.name).or v.default with
    | some value => pure value
    | none =>
      fail (.configuration ("no value for required variable '" ++ v.name ++ "'")
        ["supply a value or declare a default"]) v.span
  let value ← match v.constraint with
    | some constraint => given.convert constraint
    | none => pure given
  checkValidations engine.library v (scope.child [((Declaration.input v).symbol, value)])
    v.validations
  return value

/-! ## Resources -/

/-- The expansion of a resource, which is made once. -/
def expansionFor (engine : Engine) (r : Resource) : Pass Expansion := do
  let s ← get
  match Table.get? s.expansions r.address with
  | some e => return e
  | none =>
    let source ← ofOutcome (r.multiplicity.mapM fun e => e.evaluate engine.library (rootScope s))
    let e ← ofOutcome (Expansion.of engine.settings.maxInstances r source)
    modify fun s => { s with expansions := Table.put s.expansions r.address e }
    return e

/-- The values of arguments, one after another. -/
def argumentValues (library : Library) (scope : Scope) :
    List (String × Expr) → Outcome (Table String Value)
  | [] => .ok []
  | (name, e) :: rest => do
    let v ← e.evaluate library scope
    return (name, v) :: (← argumentValues library scope rest)

/-- Attributes of an instance: its arguments, then unknown for those that are computed, and what
has been supplied from outside over all of them. -/
def attributes (arguments : Table String Value) (computed : List String)
    (applied : Table String Value) : Table String Value :=
  let completed := computed.foldl
    (fun t name => if Table.has t name then t else Table.put t name .unknown) arguments
  Table.putAll completed applied

/-- The value of an instance. -/
def evaluateInstance (engine : Engine) (r : Resource) (node : NodeId) : Pass Value := do
  let e ← engine.expansionFor r
  -- An instance with any other key does not exist.
  if e.isDeferred || !e.keys.contains node.key then
    throw (.fault (.error ⟨.undefinedSymbol node.text [], r.span, []⟩))
  let s ← get
  let scope := (rootScope s).child (e.bindingsFor node.key)
  let arguments ← ofOutcome (argumentValues engine.library scope r.arguments)
  modify fun s => { s with arguments := Table.put s.arguments node arguments }
  let applied := (Table.get? s.applied node).getD []
  return .object (attributes arguments r.computed applied)

/-! ## Nodes -/

/-- Resolve nodes one after another, also behind one that has no value; the first failure is the
result. -/
def firstFailure (resolve : NodeId → Pass Value) : List NodeId → Pass (Option Failure)
  | [] => return none
  | node :: nodes => do
    let own ← match ← outcomeOf (resolve node) with
      | .ok _ => pure none
      | .error (.unresolved f) => pure (some f)
      | .error (.fault f) => throw (.fault f)
    -- The later nodes are resolved even if this one has failed.
    return own.or (← firstFailure resolve nodes)

/-- Resolve nodes one after another, and stop if one has no value. -/
def resolveAll (resolve : NodeId → Pass Value) (nodes : List NodeId) : Pass Unit := do
  match ← firstFailure resolve nodes with
  | some f => throw (.unresolved f)
  | none => return ()

/-- The value of a template: those of its instances under their places or names, or unknown while
its expansion is deferred. -/
def evaluateTemplate (engine : Engine) (resolve : NodeId → Pass Value) (r : Resource) :
    Pass Value := do
  let e ← engine.expansionFor r
  if e.isDeferred then
    modify fun s =>
      { s with deferred := s.deferred.filter (· ≠ r.address) ++ [r.address] }
    return .unknown
  resolveAll resolve (e.keys.map fun key => ⟨r.address, key⟩)
  return ((← get).aggregate? e).getD .unknown

/-- The error about references to what nothing declares. -/
def missingError (first : SymbolPath) (others : List SymbolPath) (span : Option Span) :
    EvalError :=
  let hints :=
    if others.isEmpty then []
    else ["also undeclared: " ++ ", ".intercalate (others.map SymbolPath.address)]
  ⟨.undefinedSymbol first.address hints, span, []⟩

/-- The value of a node, given how others are resolved. -/
def evaluateNode (engine : Engine) (resolve : NodeId → Pass Value) (node : NodeId) :
    Pass Value := do
  match engine.graph.node? node.address with
  | none => throw (.fault (.error ⟨.undefinedSymbol node.text [], none, []⟩))
  | some n =>
    match n.missing with
    | first :: others =>
      throw (.fault (.error (missingError first others n.declaration.span)))
    | [] =>
      resolveAll resolve (n.dependencies.map .ofAddress)
      let scope := rootScope (← get)
      match n.declaration with
      | .input v => ofOutcome (engine.inputValue v scope)
      | .localValue v => ofOutcome (v.expression.evaluate engine.library scope)
      | .output o => ofOutcome (o.expression.evaluate engine.library scope)
      | .resource r =>
        if node.key.isNone && r.multiplicity.isSome then engine.evaluateTemplate resolve r
        else engine.evaluateInstance r node

/-- Evaluate a node and keep what becomes of it.  A defect is not kept. -/
def settling (node : NodeId) (evaluate : Pass Value) : Pass Value := do
  modify (·.count node)
  match ← outcomeOf evaluate with
  | .ok v =>
    modify (·.settle node (.value v))
    return v
  | .error (.unresolved f) => keep (.inherited node f)
  | .error (.fault (.error e)) => keep (.own node e)
  | .error (.fault (.defect d)) => throw (.fault (.defect d))
where
  /-- Keep the failure of the node and stop. -/
  keep (f : Failure) : Pass Value := do
    modify (·.settle node (.failure f))
    throw (.unresolved f)

/-- What has become of a node, or else the result of a computation. -/
def settledOr (node : NodeId) (otherwise : Pass Value) : Pass Value := do
  match Table.get? (← get).settled node with
  | some (.value v) => return v
  | some (.failure f) => throw (.unresolved f)
  | none => otherwise

/-- The value of a node.  No path without cycles is longer than the number of nodes, so that `fuel`
above it is never used up. -/
def resolveWithin (engine : Engine) : Nat → NodeId → Pass Value
  | 0, node => settledOr node (throw (.fault (.error ⟨.cycle [node.text], none, []⟩)))
  | fuel + 1, node =>
    settledOr node (settling node (engine.evaluateNode (engine.resolveWithin fuel) node))

/-- The value of a node, evaluated if need be; without cycles among the declarations. -/
def resolveNode (engine : Engine) (node : NodeId) : Pass Value :=
  engine.resolveWithin (engine.graph.size + 2) node

/-! ## Nodes from outside -/

/-- Check that a node belongs to a declaration. -/
def checkNode (engine : Engine) (node : NodeId) : Outcome Unit :=
  if engine.graph.has node.address then .ok ()
  else fail (.undefinedSymbol node.text []) none

/-- How far a node has come. -/
def status (engine : Engine) (s : State) (node : NodeId) : Outcome Status := do
  engine.checkNode node
  return s.status node

/-- The value of a node of a graph without cycles. -/
def resolve (engine : Engine) (node : NodeId) : Pass Value := do
  ofOutcome (engine.checkNode node)
  ofOutcome engine.graph.checkAcyclic
  engine.resolveNode node

end Engine

end Groundplan
