import Groundplan.Expansion
import Groundplan.Graph.Order
import Groundplan.Library.Standard
import Groundplan.Scope
import Groundplan.Settings

/-!
# State of an engine

An engine holds what does not change: a graph of declarations, a library, settings and the values
of input variables.  Its state tells what has become of the nodes so far.

## Main definitions

- `Engine`, `Engine.ofDeclarations`
- `Failure`, `Settled`: what can become of a node
- `Engine.State`
- `Engine.Pass`: computations that change the state and may stop

## Main statements

- `Failure.origin_inherited`: a failure that is passed on keeps its origin
- `Engine.State.value?_settle`: settling a node tells nothing of the others
- `Engine.State.status_eq_resolved_iff`: the nodes with a value are the resolved ones
-/

namespace Groundplan

/-! ## Engines -/

/-- What an evaluation starts from. -/
structure Engine where
  graph : Graph
  library : Library
  settings : Settings
  /-- The values supplied for input variables. -/
  inputs : Table String Value

namespace Engine

/-- Names of the input variables among some declarations. -/
def inputNames (declarations : List Declaration) : List String :=
  declarations.filterMap fun d =>
    match d with
    | .input v => some v.name
    | _ => none

/-- The values of some inputs, each of which must be declared. -/
def readInputs (declared : List String) : List (String × Plain) → Outcome (Table String Value)
  | [] => .ok []
  | (name, data) :: rest => do
    if !declared.contains name then
      let names := if declared.isEmpty then "none"
        else ", ".intercalate (Sorting.sortTexts declared)
      fail (.configuration ("value supplied for undeclared variable '" ++ name ++ "'")
        ["declared variables: " ++ names]) none
    let value ← match Value.ofPlain data with
      | .ok v => pure v
      | .error (.notFinite shown) =>
        let detail := NumeralProblem.notFiniteMessage shown
        fail (.configuration ("invalid value for variable '" ++ name ++ "': " ++ detail) []) none
      | .error problem => .error (.defect (Defect.ofNumeral problem))
    return (name, value) :: (← readInputs declared rest)

/-- The engine for some declarations and inputs. -/
def ofDeclarations (library : Library) (settings : Settings) (declarations : List Declaration)
    (inputs : Table String Plain) : Outcome Engine := do
  let graph ← Graph.ofDeclarations declarations
  return ⟨graph, library, settings, ← readInputs (inputNames declarations) inputs⟩

end Engine

/-! ## What becomes of nodes -/

/-- Why a node has no value: its evaluation has failed, or that of a node below it. -/
structure Failure where
  node : NodeId
  /-- The error of the node whose evaluation has failed. -/
  error : EvalError
  /-- The nodes from the next one down to the one whose evaluation has failed. -/
  below : List NodeId
deriving Repr, Inhabited

namespace Failure

/-- The failure of a node whose evaluation fails. -/
def own (node : NodeId) (error : EvalError) : Failure :=
  ⟨node, error, []⟩

/-- The nodes from the one without a value to the one whose evaluation has failed. -/
def chain (f : Failure) : List NodeId :=
  f.node :: f.below

/-- The failure of a node that needs one that has failed. -/
def inherited (node : NodeId) (f : Failure) : Failure :=
  ⟨node, f.error, f.chain⟩

/-- Whether the node itself has not been evaluated. -/
def isSkipped (f : Failure) : Bool :=
  !f.below.isEmpty

/-- The node whose evaluation has failed. -/
def origin (f : Failure) : NodeId :=
  f.below.getLastD f.node

/-- Text of nodes that are needed one by the other. -/
def chainText (nodes : List NodeId) : String :=
  " -> ".intercalate (nodes.map NodeId.text)

/-- Text of a failure. -/
def format (f : Failure) : String :=
  let message := f.error.problem.message
  if f.isSkipped then
    f.node.text ++ ": skipped, " ++ chainText f.chain ++ " failed: " ++ message
  else f.node.text ++ ": " ++ message

/-- The diagnostic about a failure.  A skipped node only points at the nodes below it. -/
def diagnostic (f : Failure) : Diagnostic :=
  if f.isSkipped then
    ⟨f.error.problem.code, "not evaluated because " ++ chainText f.below ++ " failed", .info, none,
      some f.node.text, [], []⟩
  else f.error.diagnostic (some f.node.text)

@[simp]
theorem isSkipped_own (node : NodeId) (error : EvalError) : (own node error).isSkipped = false :=
  rfl

@[simp]
theorem isSkipped_inherited (node : NodeId) (f : Failure) : (inherited node f).isSkipped = true :=
  rfl

/-- A failure that is passed on has one more node in front. -/
@[simp]
theorem chain_inherited (node : NodeId) (f : Failure) :
    (inherited node f).chain = node :: f.chain :=
  rfl

@[simp]
theorem origin_own (node : NodeId) (error : EvalError) : (own node error).origin = node :=
  rfl

/-- A failure that is passed on keeps its origin. -/
@[simp]
theorem origin_inherited (node : NodeId) (f : Failure) : (inherited node f).origin = f.origin := by
  show (f.node :: f.below).getLastD node = f.below.getLastD f.node
  cases f.below <;> rfl

end Failure

/-- What has become of a node. -/
inductive Settled where
  | value (v : Value)
  | failure (f : Failure)

/-- How far a node has come. -/
inductive Status where
  | unvisited
  | resolved
  | failed
  | skipped
deriving DecidableEq, Repr, Inhabited

/-- Name of a status. -/
def Status.label : Status → String
  | .unvisited => "unvisited"
  | .resolved => "resolved"
  | .failed => "failed"
  | .skipped => "skipped"

/-! ## States -/

namespace Engine

/-- What has become of the nodes so far. -/
structure State where
  settled : Table NodeId Settled
  /-- Expansions of templates by their addresses. -/
  expansions : Table String Expansion
  /-- Addresses of the templates whose expansion is deferred. -/
  deferred : List String
  /-- The arguments of instances. -/
  arguments : Table NodeId (Table String Value)
  /-- Attributes of instances that have been supplied from outside. -/
  applied : Table NodeId (Table String Value)
  /-- How often nodes have been evaluated. -/
  evaluations : Table NodeId Nat
  /-- Nodes whose own failure has been reported. -/
  reported : List NodeId

namespace State

/-- Nothing has been evaluated. -/
def initial : State := ⟨[], [], [], [], [], [], []⟩

/-- The value of a node. -/
def value? (s : State) (node : NodeId) : Option Value :=
  match Table.get? s.settled node with
  | some (.value v) => some v
  | _ => none

/-- How far a node has come. -/
def status (s : State) (node : NodeId) : Status :=
  match Table.get? s.settled node with
  | none => .unvisited
  | some (.value _) => .resolved
  | some (.failure f) => if f.isSkipped then .skipped else .failed

/-- Keep what has become of a node. -/
def settle (s : State) (node : NodeId) (outcome : Settled) : State :=
  { s with settled := Table.put s.settled node outcome }

/-- Count one evaluation of a node. -/
def count (s : State) (node : NodeId) : State :=
  let earlier := (Table.get? s.evaluations node).getD 0
  { s with evaluations := Table.put s.evaluations node (earlier + 1) }

/-- All failures. -/
def failures (s : State) : List Failure :=
  s.settled.filterMap fun (_, outcome) =>
    match outcome with
    | .failure f => some f
    | .value _ => none

/-- The nodes of a declaration whose own evaluation has failed. -/
def ownFailures (s : State) (address : String) : List NodeId :=
  ((s.failures.filter (!·.isSkipped)).map Failure.node).filter (·.address == address)

/-- Note that the failures of nodes have been reported. -/
def report (s : State) (nodes : List NodeId) : State :=
  { s with reported := s.reported ++ nodes.filter (!s.reported.contains ·) }

/-- The node that the diagnostic of a failure is about; it has none before it is reported. -/
def subject? (s : State) (f : Failure) : Option String :=
  if s.reported.contains f.origin then some f.origin.text else none

/-- Forget what has become of a declaration and its instances, except for what has been supplied
from outside. -/
def forget (s : State) (address : String) : State where
  settled := s.settled.filter (·.1.address ≠ address)
  expansions := Table.erase s.expansions address
  deferred := s.deferred.filter (· ≠ address)
  arguments := s.arguments.filter (·.1.address ≠ address)
  applied := s.applied
  evaluations := s.evaluations
  reported := s.reported.filter (·.address ≠ address)

/-- The value of a template from those of its instances, if all of them have one. -/
def aggregate? (s : State) (e : Expansion) : Option Value := do
  let values ← e.keys.mapM fun key => s.value? ⟨e.address, key⟩
  if e.mode = .count then return .list values
  else
    return .map <| (e.keys.zip values).filterMap fun (key, v) =>
      match key with
      | some (.name name) => some (name, v)
      | _ => none

/-! ### Nodes with a value -/

@[simp]
theorem value?_initial (node : NodeId) : initial.value? node = none :=
  rfl

/-- A node that settles with a value has that value. -/
@[simp]
theorem value?_settle_self (s : State) (node : NodeId) (v : Value) :
    (s.settle node (.value v)).value? node = some v := by
  simp [value?, settle]

/-- A node that settles with a failure has no value. -/
@[simp]
theorem value?_settle_failure (s : State) (node : NodeId) (f : Failure) :
    (s.settle node (.failure f)).value? node = none := by
  simp [value?, settle]

/-- Settling a node tells nothing of the others. -/
theorem value?_settle (s : State) {node other : NodeId} (outcome : Settled)
    (different : node ≠ other) : (s.settle node outcome).value? other = s.value? other := by
  simp [value?, settle, Table.get?_put_of_ne s.settled outcome different]

/-- The nodes with a value are the resolved ones. -/
theorem status_eq_resolved_iff (s : State) (node : NodeId) :
    s.status node = .resolved ↔ (s.value? node).isSome = true := by
  cases found : Table.get? s.settled node with
  | none => simp [status, value?, found]
  | some outcome =>
    cases outcome with
    | value v => simp [status, value?, found]
    | failure f => cases skipped : f.isSkipped <;> simp [status, value?, found, skipped]

/-- Counting an evaluation changes no value. -/
@[simp]
theorem value?_count (s : State) (node other : NodeId) :
    (s.count node).value? other = s.value? other :=
  rfl

end State

/-! ## Computations on states -/

/-- Why a computation on the state stops. -/
inductive Stop where
  /-- A node that is needed has no value. -/
  | unresolved (f : Failure)
  | fault (f : Fault)

/-- A computation that changes the state and may stop; what it has changed stays. -/
abbrev Pass (α : Type) := ExceptT Stop (StateM State) α

/-- What a computation comes to; this itself does not stop. -/
def outcomeOf {α : Type} (p : Pass α) : Pass (Except Stop α) :=
  ExceptT.lift p.run

/-- A computation that does not change the state. -/
def ofOutcome {α : Type} (r : Outcome α) : Pass α :=
  match r with
  | .ok a => pure a
  | .error fault => throw (.fault fault)

end Engine

end Groundplan
