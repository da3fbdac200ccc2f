import Groundplan.Engine.Report
import Groundplan.Engine.Resolution

/-!
# Passes

A pass resolves declarations, each one once its dependencies have settled.  A run is a pass over
all declarations.  Attributes that become known from outside are applied to an instance, after which
a pass resolves the declarations that depend on it anew.

## Main definitions

- `Engine.drive`: resolve declarations in the order in which their dependencies settle
- `Engine.run`: resolve all declarations
- `Engine.apply`: supply attributes of an instance
-/

namespace Groundplan

namespace Engine

/-! ## Driving -/

/-- Resolve a declaration, whatever comes of it. -/
def attempt (engine : Engine) (address : String) : Pass Unit := do
  let _ ← outcomeOf (engine.resolveNode (.ofAddress address))

/-- Whether so many collected errors end a pass. -/
def isEnough (engine : Engine) (errors : Nat) : Bool :=
  engine.settings.maxErrors ≠ 0 && engine.settings.maxErrors ≤ errors

/-- Resolve the declarations of `ready` one after another; each time, those among `waiting` whose
dependencies have all been placed become ready behind the others.  When enough errors have been
collected, no more declarations become ready.  A defect stops the pass once those that are ready
have been resolved. -/
def driveFrom (engine : Engine) (errors : Nat) (placed waiting : List String) :
    List String → Pass Unit
  | [] => return ()
  | address :: ready => do
    match ← outcomeOf (engine.resolveNode (.ofAddress address)) with
    | .error (.fault f) =>
      -- What is ready has been begun, and is completed.
      ready.forM engine.attempt
      throw (.fault f)
    | _ =>
      let own := (← get).ownFailures address
      modify (·.report own)
      if engine.isEnough (errors + own.length) then
        -- Nothing that still waits becomes ready any more.
        driveFrom engine (errors + own.length) placed [] ready
      else
        driveFrom engine (errors + own.length) (address :: placed)
          (engine.graph.held (address :: placed) waiting)
          (ready ++ engine.graph.released (address :: placed) waiting)
termination_by ready => waiting.length + ready.length
decreasing_by
  · simp only [List.length_nil, List.length_cons]
    omega
  · have split := engine.graph.length_held_add_length_released (address :: placed) waiting
    simp only [List.length_append, List.length_cons]
    omega

/-- Resolve declarations, each one once those of its dependencies that are among them have
settled. -/
def drive (engine : Engine) (addresses : List String) : Pass Unit :=
  -- Dependencies that are not among the addresses have settled before.
  let placed := Graph.besides addresses engine.graph.addresses
  engine.driveFrom 0 placed (engine.graph.held placed addresses)
    (engine.graph.released placed addresses)

/-! ## Runs -/

/-- Resolve all declarations and report. -/
def run (engine : Engine) : Pass Report := do
  engine.drive (← ofOutcome engine.graph.topologicalOrder)
  engine.report

/-! ## Attributes from outside -/

/-- Refuse to apply attributes. -/
private def refuseToApply {α : Type} (detail : String) (hints : List String) : Outcome α :=
  fail (.configuration ("cannot apply attributes to " ++ detail) hints) none

/-- Check that attributes can be applied to a node at all. -/
def checkApplicable (engine : Engine) (node : NodeId) : Outcome Unit := do
  engine.checkNode node
  match engine.graph.declaration? node.address with
  | some (.resource r) =>
    if node.key.isNone && r.multiplicity.isSome then
      refuseToApply (node.text ++ ": name a single instance")
        ["use NodeId(\"" ++ node.address ++ "\", key)"]
  | _ => refuseToApply (node.text ++ ": not a resource") []

/-- The values of attributes that are supplied. -/
def readAttributes : List (String × Plain) → Outcome (Table String Value)
  | [] => .ok []
  | (name, data) :: rest =>
    match Value.ofPlain data with
    | .error problem => .error (.defect (Defect.ofNumeral problem))
    | .ok v => do return (name, v) :: (← readAttributes rest)

/-- The state with the value of a template made anew from those of its instances, if it has one. -/
def reaggregate (s : State) (address : String) : State :=
  match s.value? (.ofAddress address), Table.get? s.expansions address with
  | some _, some e =>
    match s.aggregate? e with
    | some v => s.settle (.ofAddress address) (.value v)
    | none => s
  | _, _ => s

/-- The state with attributes put over those of a node that has a value. -/
def merge (s : State) (node : NodeId) (value : Value) (supplied : Table String Value) : State :=
  let applied := Table.putAll ((Table.get? s.applied node).getD []) supplied
  let fields := Table.putAll (value.fields?.getD []) supplied
  let s := { s with applied := Table.put s.applied node applied }
  let s := s.settle node (.value (.object fields))
  if node.isInstance then reaggregate s node.address else s

/-- Supply attributes of an instance.  The declarations that depend on it are forgotten and
resolved anew; all others keep their values. -/
def apply (engine : Engine) (node : NodeId) (supplied : Table String Plain) : Pass Report := do
  ofOutcome (engine.checkApplicable node)
  let supplied ← ofOutcome (readAttributes supplied)
  match (← get).value? node with
  | none => ofOutcome (refuseToApply ("unresolved node " ++ node.text) [])
  | some value =>
    let affected := engine.graph.dependentsClosure [node.address]
    modify fun s =>
      -- Nothing but the dependents is forgotten.
      let s := affected.foldl State.forget (merge s node value supplied)
      { s with evaluations := [] }
    let order ← ofOutcome engine.graph.topologicalOrder
    engine.drive (Graph.among affected order)
    engine.report

end Engine

end Groundplan
