import Groundplan.Engine.Pass
import Groundplan.Proofs.Engine.Resolution
import Groundplan.Proofs.Graph.Order

/-!
# Passes Keep States Sound

A pass resolves declarations one after another, and whatever every resolution preserves, the pass
preserves.  It does not matter which declarations a pass resolves, in which order, or where it
stops.  In particular passes keep states sound.

## Main Definitions

- `Engine.Preserves`: a computation preserves a property of states
- `Engine.Stable`: no change made by a resolution destroys a property
- `Engine.Maintains`: a computation leaves sound states sound

## Main Statements

- `Engine.resolveWithin_preserves`: resolutions preserve stable properties
- `Engine.driveFrom_preserves`: the loop of a pass, by induction on what waits and is ready
- `Engine.run_preserves`, `Engine.drive_preserves`
- `Engine.run_maintains`, `Engine.drive_maintains`
-/

namespace Groundplan

namespace Engine

variable {engine : Engine} {overlay : Overlay} {Admitted : NodeId → Prop}

/-! ## Computations that preserve a property -/

/-- A computation preserves a property of states, whether it succeeds or not. -/
def Preserves (P : State → Prop) {α : Type} (p : Pass α) : Prop :=
  ∀ s, P s → P (runFrom s p).2

namespace Preserves

variable {P : State → Prop} {α β : Type}

theorem pure (a : α) : Preserves P (Pure.pure a : Pass α) :=
  fun _ hs => hs

theorem throw (stop : Stop) : Preserves P (throw stop : Pass α) :=
  fun _ hs => hs

theorem ofOutcome (r : Outcome α) : Preserves P (Engine.ofOutcome r) := by
  cases r with
  | ok a => exact pure a
  | error fault => exact throw (.fault fault)

theorem bind {p : Pass α} {f : α → Pass β} (hp : Preserves P p)
    (hf : ∀ a, Preserves P (f a)) : Preserves P (p >>= f) := by
  intro s hs
  have hafter := hp s hs
  rw [runFrom_bind]
  generalize runFrom s p = result at hafter ⊢
  obtain ⟨r, s'⟩ := result
  cases r with
  | error stop => exact hafter
  | ok a => exact hf a s' hafter

/-- The next step may assume that the first one has succeeded. -/
theorem ofOutcome_bind (r : Outcome α) {f : α → Pass β}
    (hf : ∀ a, r = .ok a → Preserves P (f a)) : Preserves P (Engine.ofOutcome r >>= f) := by
  cases r with
  | ok a => exact hf a rfl
  | error fault => exact throw (.fault fault)

theorem outcomeOf {p : Pass α} (hp : Preserves P p) : Preserves P (Engine.outcomeOf p) :=
  hp

theorem get_bind {f : State → Pass β} (hf : ∀ s, Preserves P (f s)) :
    Preserves P (get >>= f) :=
  fun s hs => hf s s hs

theorem modify {change : State → State} (hchange : ∀ s, P s → P (change s)) :
    Preserves P (modifyThe State change : Pass Unit) :=
  hchange

end Preserves

/-! ## Resolutions -/

section Resolutions

variable {P : State → Prop} {r : Resource}

/-- Making an expansion only changes what is expanded. -/
theorem expansionFor_preserves (hexpand : ∀ s table, P s → P { s with expansions := table }) :
    Preserves P (engine.expansionFor r) := by
  refine .get_bind fun s => ?_
  cases Table.get? s.expansions r.address with
  | some e => exact .pure e
  | none =>
    exact .bind (.ofOutcome _) fun _ => .bind (.ofOutcome _) fun _ =>
      .bind (.modify fun s => hexpand s _) fun _ => .pure _

/-- Evaluating an instance changes its arguments besides. -/
theorem evaluateInstance_preserves {node : NodeId}
    (hexpand : ∀ s table, P s → P { s with expansions := table })
    (harguments : ∀ s table, P s → P { s with arguments := table }) :
    Preserves P (engine.evaluateInstance r node) := by
  refine .bind (expansionFor_preserves hexpand) fun e => ?_
  by_cases habsent : (e.isDeferred || !e.keys.contains node.key) = true
  · rw [if_pos habsent]
    exact .throw _
  · rw [if_neg habsent]
    exact .get_bind fun _ => .bind (.ofOutcome _) fun _ =>
      .bind (.modify fun s => harguments s _) fun _ => .pure _

/-- A property that no change made by a resolution destroys. -/
structure Stable (P : State → Prop) : Prop where
  count : ∀ s node, P s → P (s.count node)
  settle : ∀ s node outcome, P s → P (s.settle node outcome)
  expand : ∀ s table, P s → P { s with expansions := table }
  supply : ∀ s table, P s → P { s with arguments := table }
  defer : ∀ s address, P s →
    P { s with deferred := s.deferred.filter (· ≠ address) ++ [address] }

variable {resolve : NodeId → Pass Value} (hresolve : ∀ m, Preserves P (resolve m))

include hresolve

theorem firstFailure_preserves (nodes : List NodeId) :
    Preserves P (firstFailure resolve nodes) := by
  induction nodes with
  | nil => exact .pure none
  | cons node nodes ih =>
    refine .bind (.outcomeOf (hresolve node)) fun r => ?_
    rcases r with (f | fault) | v
    · exact .bind (.pure _) fun _ => .bind ih fun _ => .pure _
    · exact .throw _
    · exact .bind (.pure _) fun _ => .bind ih fun _ => .pure _

theorem resolveAll_preserves (nodes : List NodeId) : Preserves P (resolveAll resolve nodes) := by
  refine .bind (firstFailure_preserves hresolve nodes) fun found => ?_
  cases found with
  | some f => exact .throw _
  | none => exact .pure ()

variable (hstable : Stable P)

include hstable

theorem evaluateTemplate_preserves : Preserves P (engine.evaluateTemplate resolve r) := by
  refine .bind (expansionFor_preserves hstable.expand) fun e => ?_
  by_cases hdeferred : e.isDeferred = true
  · rw [if_pos hdeferred]
    exact .bind (.modify fun s => hstable.defer s r.address) fun _ => .pure _
  · rw [if_neg hdeferred]
    exact .bind (resolveAll_preserves hresolve _) fun _ => .get_bind fun _ => .pure _

theorem evaluateNode_preserves (node : NodeId) :
    Preserves P (engine.evaluateNode resolve node) := by
  unfold evaluateNode
  split
  · exact .throw _
  · split
    · exact .throw _
    · refine .bind (resolveAll_preserves hresolve _) fun _ => .get_bind fun _ => ?_
      split
      · exact .ofOutcome _
      · exact .ofOutcome _
      · exact .ofOutcome _
      · split
        · exact evaluateTemplate_preserves hresolve hstable
        · exact evaluateInstance_preserves hstable.expand hstable.supply

omit hresolve in
theorem settling_preserves {node : NodeId} {evaluate : Pass Value} (h : Preserves P evaluate) :
    Preserves P (settling node evaluate) := by
  intro s hs
  have hafter := h _ (hstable.count s node hs)
  rw [runFrom_settling]
  generalize runFrom (s.count node) evaluate = result at hafter ⊢
  rcases result with ⟨(f | ⟨e | d⟩) | v, s'⟩
  · exact hstable.settle _ _ _ hafter
  · exact hstable.settle _ _ _ hafter
  · exact hafter
  · exact hstable.settle _ _ _ hafter

omit hresolve hstable in
theorem settledOr_preserves {node : NodeId} {otherwise : Pass Value} (h : Preserves P otherwise) :
    Preserves P (settledOr node otherwise) := by
  refine .get_bind fun s => ?_
  split
  · exact .pure _
  · exact .throw _
  · exact h

omit hresolve in
/-- A resolution preserves what none of its changes destroys. -/
theorem resolveWithin_preserves (fuel : Nat) (node : NodeId) :
    Preserves P (engine.resolveWithin fuel node) := by
  induction fuel generalizing node with
  | zero => exact settledOr_preserves (.throw _)
  | succ fuel ih =>
    exact settledOr_preserves (settling_preserves hstable (evaluateNode_preserves ih hstable node))

end Resolutions

section Loops

variable {P : State → Prop}
  (hresolve : ∀ address ∈ engine.graph.addresses,
    Preserves P (engine.resolveNode (.ofAddress address)))
  (hreport : ∀ s nodes, P s → P (s.report nodes))

include hresolve

theorem attempts_preserve {addresses : List String}
    (hall : ∀ address ∈ addresses, address ∈ engine.graph.addresses) :
    Preserves P (addresses.forM engine.attempt) := by
  induction addresses with
  | nil => exact .pure ()
  | cons address addresses ih =>
    show Preserves P (engine.attempt address >>= fun _ => addresses.forM engine.attempt)
    refine .bind ?_ fun _ => ih fun a ha => hall a (List.mem_cons_of_mem address ha)
    exact .bind (.outcomeOf (hresolve address (hall address (by simp)))) fun _ => .pure ()

include hreport

/-- The loop of a pass, by induction on what waits and is ready. -/
theorem driveFrom_preserves {errors : Nat} {placed waiting ready : List String}
    (hwaiting : ∀ address ∈ waiting, address ∈ engine.graph.addresses)
    (hready : ∀ address ∈ ready, address ∈ engine.graph.addresses) :
    Preserves P (engine.driveFrom errors placed waiting ready) := by
  induction errors, placed, waiting, ready using driveFrom.induct engine with
  | case1 errors placed waiting =>
    rw [driveFrom]
    exact .pure ()
  | case2 errors placed waiting address ready ihstop ihgo =>
    have haddress := hready address (by simp)
    have hrest : ∀ a ∈ ready, a ∈ engine.graph.addresses :=
      fun a ha => hready a (List.mem_cons_of_mem address ha)
    rw [driveFrom]
    refine .bind (.outcomeOf (hresolve address haddress)) fun r => ?_
    split
    · -- A defect ends the pass once all that is ready has been resolved.
      exact .bind (attempts_preserve hresolve hrest) fun _ => .throw _
    · refine .get_bind fun s => .bind (.modify fun s => hreport s _) fun _ => ?_
      split
      · -- Enough errors have been collected, and nothing becomes ready any more.
        exact ihstop s (fun a ha => absurd ha List.not_mem_nil) hrest
      · exact ihgo s (Graph.forall_held hwaiting) (Graph.forall_released hwaiting hrest)

theorem drive_preserves {addresses : List String}
    (hall : ∀ address ∈ addresses, address ∈ engine.graph.addresses) :
    Preserves P (engine.drive addresses) :=
  driveFrom_preserves hresolve hreport (fun a ha => hall a (List.mem_filter.mp ha).1)
    (fun a ha => hall a (List.mem_filter.mp ha).1)

omit hresolve in
theorem report_preserves : Preserves P engine.report :=
  .get_bind fun _ => .bind (.modify fun s => hreport s _) fun _ => .pure _

theorem run_preserves : Preserves P engine.run :=
  .ofOutcome_bind _ fun _ horder =>
    .bind (drive_preserves hresolve hreport (Graph.mem_addresses_of_topologicalOrder horder))
      fun _ => report_preserves hreport

end Loops

theorem resolve_preserves {P : State → Prop} {node : NodeId}
    (hresolve : engine.graph.has node.address = true → Preserves P (engine.resolveNode node)) :
    Preserves P (engine.resolve node) := by
  refine .ofOutcome_bind _ fun _ hcheck => .bind (.ofOutcome _) fun _ => hresolve ?_
  unfold checkNode at hcheck
  split at hcheck
  · assumption
  · cases hcheck

/-! ## Sound states -/

/-- A computation leaves sound states sound. -/
def Maintains (engine : Engine) (overlay : Overlay) (Admitted : NodeId → Prop) {α : Type}
    (p : Pass α) : Prop :=
  ∀ s, Sound engine overlay Admitted s → Sound engine overlay Admitted (runFrom s p).2

/-- A report changes nothing that makes a state sound. -/
theorem Sound.report {s : State} (hs : Sound engine overlay Admitted s) (nodes : List NodeId) :
    Sound engine overlay Admitted (s.report nodes) :=
  hs.of_eq rfl rfl rfl

section Passes

variable (hgraph : engine.graph.Acyclic) (hadmits : Admits engine overlay Admitted)

include hgraph hadmits

theorem resolveNode_maintains {node : NodeId} (hadmitted : Admitted node) :
    Maintains engine overlay Admitted (engine.resolveNode node) := by
  intro s hs
  obtain ⟨s', hrun, hs', _⟩ := resolveNode_resolves hgraph (hadmits.closed hgraph) hs hadmitted
  rw [hrun]
  exact hs'

theorem resolveAddress_maintains {address : String} (haddress : address ∈ engine.graph.addresses) :
    Maintains engine overlay Admitted (engine.resolveNode (.ofAddress address)) :=
  resolveNode_maintains hgraph hadmits (hadmits.ofAddress address haddress)

theorem run_maintains : Maintains engine overlay Admitted engine.run :=
  run_preserves (fun _ => resolveAddress_maintains hgraph hadmits)
    fun _ nodes hs => hs.report nodes

theorem resolve_maintains {node : NodeId} (hadmitted : engine.graph.has node.address = true →
    Admitted node) : Maintains engine overlay Admitted (engine.resolve node) :=
  resolve_preserves fun hdeclared => resolveNode_maintains hgraph hadmits (hadmitted hdeclared)

end Passes

end Engine

end Groundplan
