import Groundplan.Engine.State

/-!
# Reports

A report tells what has become of all nodes after a pass, in the order of the declarations and,
within a declaration, of the keys.

## Main definitions

- `ResourceInstance`: a resource with its arguments
- `Report`, `Engine.report`
-/

namespace Groundplan

/-- An instance of a resource that has a value. -/
structure ResourceInstance where
  node : NodeId
  /-- The type of the resource. -/
  type : String
  arguments : Table String Value
  lifecycle : Lifecycle

/-- Names of the arguments that are not wholly known, in ascending order. -/
def ResourceInstance.unknownArguments (r : ResourceInstance) : List String :=
  Sorting.sortTexts (Table.keys (r.arguments.filter (·.2.containsUnknown)))

/-- What has become of all nodes. -/
structure Report where
  values : Table NodeId Value
  outputs : Table String Value
  /-- Names of the outputs that are not to be shown, in ascending order. -/
  sensitive : List String
  failures : List Failure
  /-- The templates whose instances are not known yet. -/
  deferred : List NodeId
  diagnostics : Collector
  evaluations : Table NodeId Nat
  resources : List ResourceInstance

namespace Report

/-- Why the instances of a template are not known. -/
def deferralReason : String := "multiplicity source is unknown"

/-- Whether no node has failed. -/
def isOk (r : Report) : Bool :=
  r.failures.isEmpty

/-- The nodes whose own evaluation has failed. -/
def failed (r : Report) : List NodeId :=
  (r.failures.filter (!·.isSkipped)).map Failure.node

/-- The nodes that need one that has failed. -/
def skipped (r : Report) : List NodeId :=
  (r.failures.filter (·.isSkipped)).map Failure.node

/-- The value of a node. -/
def value? (r : Report) (node : NodeId) : Option Value :=
  Table.get? r.values node

end Report

namespace Engine

/-- Whether a node does not come after another: by the order of declarations, then by key. -/
def nodeAtMost (g : Graph) (a b : NodeId) : Bool :=
  let i := g.position a.address
  let j := g.position b.address
  i < j || (i == j && InstanceKey.optionAtMost a.key b.key)

/-- The outputs that have a value. -/
def outputsWithValue (engine : Engine) (s : State) : List (OutputValue × Value) :=
  engine.graph.nodes.filterMap fun n =>
    match n.declaration with
    | .output o => (s.value? (.ofAddress n.address)).map (o, ·)
    | _ => none

/-- The resource of a node that has a value. -/
def resourceInstance? (engine : Engine) (s : State) (node : NodeId)
    (arguments : Table String Value) : Option ResourceInstance :=
  match s.value? node, engine.graph.declaration? node.address with
  | some _, some (.resource r) => some ⟨node, r.type, arguments, r.lifecycle⟩
  | _, _ => none

/-- What has become of all nodes. -/
def reportOf (engine : Engine) (s : State) : Report :=
  let atMost := nodeAtMost engine.graph
  let valued := s.settled.filterMap fun (node, _) => (s.value? node).map (node, ·)
  let outputs := engine.outputsWithValue s
  let failures := Sorting.sortBy (fun a b => atMost a.node b.node) s.failures
  { values := Sorting.sortBy (fun a b => atMost a.1 b.1) valued
    outputs := outputs.map fun (o, v) => (o.name, v)
    sensitive := Sorting.sortTexts ((outputs.filter (·.1.sensitive)).map (·.1.name))
    failures := failures
    deferred := Sorting.sortBy atMost (s.deferred.map NodeId.ofAddress)
    diagnostics := ⟨failures.map Failure.diagnostic, engine.settings.maxErrors⟩
    evaluations := s.evaluations
    resources := (Sorting.sortBy (fun a b => atMost a.1 b.1) s.arguments).filterMap
      fun (node, arguments) => engine.resourceInstance? s node arguments }

/-- The report on the state; every failure in it counts as reported. -/
def report (engine : Engine) : Pass Report := do
  let r := engine.reportOf (← get)
  modify (·.report r.failed)
  return r

end Engine

end Groundplan
