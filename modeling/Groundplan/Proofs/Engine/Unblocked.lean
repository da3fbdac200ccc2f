import Groundplan.Proofs.Engine.History
import Groundplan.Proofs.Engine.Watching

/-!
# Nothing Ever Waits

Calls are made one after another, and each of them resolves one node after another for nobody.  When
a resolution ends, no node is in progress any more.  So the next one begins with none, and the
watched engine follows the engine through any calls.

## Main Definitions

- `Engine.Watch.resolve`, `Engine.Watch.run`, `Engine.Watch.apply`: the calls, watched
- `Engine.Watch.afterAll`: what calls leave of the watched engine

## Main Statements

- `Engine.driveFrom_mirrors`: a pass, by induction on what waits and is ready
- `Engine.after_follows`: what one call leaves
- `Engine.never_trapped`
-/

namespace Groundplan

namespace Engine

/-! ## Watched calls -/

namespace Watch

variable (engine : Engine) (traps : Traps) (depth : Nat)

/-- The value of a node that is resolved for nobody. -/
def resolveNode (node : NodeId) : Watch Value :=
  resolveWithin engine traps depth [] node

/-- Resolve a declaration, whatever comes of it. -/
def attempt (address : String) : Watch Unit := do
  let _ ← outcomeOf (resolveNode engine traps depth (.ofAddress address))

/-- Resolve declarations as they become ready. -/
def driveFrom (errors : Nat) (placed waiting : List String) : List String → Watch Unit
  | [] => return ()
  | address :: ready => do
    match ← outcomeOf (resolveNode engine traps depth (.ofAddress address)) with
    | .error (.fault f) =>
      ready.forM (attempt engine traps depth)
      throw (.fault f)
    | _ =>
      let own := (← lift get).ownFailures address
      lift (modify (·.report own))
      if engine.isEnough (errors + own.length) then
        driveFrom (errors + own.length) placed [] ready
      else
        driveFrom (errors + own.length) (address :: placed)
          (engine.graph.held (address :: placed) waiting)
          (ready ++ engine.graph.released (address :: placed) waiting)
termination_by ready => waiting.length + ready.length
decreasing_by
  · simp only [List.length_nil, List.length_cons]
    omega
  · have split := engine.graph.length_held_add_length_released (address :: placed) waiting
    simp only [List.length_append, List.length_cons]
    omega

/-- Resolve declarations, each one once those of its dependencies that are among them have
settled. -/
def drive (addresses : List String) : Watch Unit :=
  let placed := Graph.besides addresses engine.graph.addresses
  driveFrom engine traps depth 0 placed (engine.graph.held placed addresses)
    (engine.graph.released placed addresses)

/-- Resolve all declarations and report. -/
def run : Watch Report := do
  drive engine traps depth (← lift (ofOutcome engine.graph.topologicalOrder))
  lift engine.report

/-- The value of a node of a graph without cycles. -/
def resolve (node : NodeId) : Watch Value := do
  lift (ofOutcome (engine.checkNode node))
  lift (ofOutcome engine.graph.checkAcyclic)
  resolveNode engine traps depth node

/-- The pass that resolves the dependents of a declaration anew. -/
def resumption (address : String) : Watch Report := do
  let order ← lift (ofOutcome engine.graph.topologicalOrder)
  drive engine traps depth (Graph.among (engine.graph.dependentsClosure [address]) order)
  lift engine.report

/-- Supply attributes of an instance, and resolve the declarations that depend on it anew. -/
def apply (node : NodeId) (supplied : Table String Plain) : Watch Report := do
  lift (ofOutcome (engine.checkApplicable node))
  let supplied ← lift (ofOutcome (readAttributes supplied))
  match (← lift get).value? node with
  | none =>
    let detail := "cannot apply attributes to " ++ ("unresolved node " ++ node.text)
    lift (ofOutcome (fail (.configuration detail []) none))
  | some value =>
    lift (modify fun s => engine.merged s node value supplied)
    resumption engine traps depth node.address

/-- What a call leaves, whether it succeeds or not. -/
def after (w : Watched) : Call → Watched
  | .resolve node => (ExceptT.run (resolve engine traps depth node) w).2
  | .run => (ExceptT.run (run engine traps depth) w).2
  | .apply node attributes => (ExceptT.run (apply engine traps depth node attributes) w).2

/-- What is left after calls from the beginning, where no node is in progress. -/
def afterAll (calls : List Call) : Watched :=
  calls.foldl (after engine traps depth) ⟨.initial, []⟩

end Watch

/-! ## Passes -/

section Passes

variable {engine : Engine} {overlay : Overlay} {Admitted : NodeId → Prop} {s : State}
  (traps : Traps) {depth : Nat} (hgraph : engine.graph.Acyclic)
  (hadmits : Admits engine overlay Admitted) (hdepth : engine.graph.size + 2 ≤ depth)

include hgraph hadmits hdepth

/-- Where no node is in progress, a node is resolved as by the engine. -/
theorem resolveNode_follows {node : NodeId} (hs : Sound engine overlay Admitted s)
    (hadmitted : Admitted node) :
    Follows engine overlay Admitted ⟨s, []⟩ (engine.resolveNode node)
      (Watch.resolveNode engine traps depth node) node := by
  have hrank := hgraph.rank_le_size node.address
  apply resolveWithin_follows traps hgraph (hadmits.closed hgraph) hs hadmitted
  · exact .inr (.inl (by omega))
  · exact hdepth
  · exact fun m hm => absurd hm List.not_mem_nil
  · exact fun m hm => absurd hm List.not_mem_nil

theorem attempts_mirrors {addresses : List String} (hs : Sound engine overlay Admitted s)
    (hall : ∀ address ∈ addresses, address ∈ engine.graph.addresses) :
    Mirrors ⟨s, []⟩ (addresses.forM engine.attempt)
      (addresses.forM (Watch.attempt engine traps depth)) := by
  induction addresses generalizing s with
  | nil => exact .pure ()
  | cons address addresses ih =>
    have hadmitted := hadmits.ofAddress address (hall address (by simp))
    have hnode := resolveNode_follows traps hgraph hadmits hdepth hs hadmitted
    have hattempt : Mirrors ⟨s, []⟩ (engine.attempt address)
        (Watch.attempt engine traps depth address) :=
      hnode.mirrors.outcomeOf.bind fun _ _ _ => .pure ()
    have hmaintains : Maintains engine overlay Admitted (engine.attempt address) :=
      Preserves.bind (.outcomeOf (resolveNode_maintains hgraph hadmits hadmitted))
        fun _ => .pure ()
    show Mirrors _ (engine.attempt address >>= fun _ => addresses.forM engine.attempt)
      (Watch.attempt engine traps depth address >>= fun _ =>
        addresses.forM (Watch.attempt engine traps depth))
    refine hattempt.bind fun _ s' hrun => ?_
    have hs' := hmaintains s hs
    rw [hrun] at hs'
    exact ih hs' fun a ha => hall a (List.mem_cons_of_mem address ha)

/-- The loop of a pass, by induction on what waits and is ready. -/
theorem driveFrom_mirrors {errors : Nat} {placed waiting ready : List String}
    (hs : Sound engine overlay Admitted s)
    (hwaiting : ∀ address ∈ waiting, address ∈ engine.graph.addresses)
    (hready : ∀ address ∈ ready, address ∈ engine.graph.addresses) :
    Mirrors ⟨s, []⟩ (engine.driveFrom errors placed waiting ready)
      (Watch.driveFrom engine traps depth errors placed waiting ready) := by
  induction errors, placed, waiting, ready using driveFrom.induct engine generalizing s with
  | case1 errors placed waiting =>
    rw [driveFrom, Watch.driveFrom]
    exact .pure ()
  | case2 errors placed waiting address ready ihstop ihgo =>
    have hrest : ∀ a ∈ ready, a ∈ engine.graph.addresses :=
      fun a ha => hready a (List.mem_cons_of_mem address ha)
    have hnode := resolveNode_follows traps hgraph hadmits hdepth hs
      (hadmits.ofAddress address (hready address (by simp)))
    rw [driveFrom, Watch.driveFrom]
    refine .bind_of_yields hnode.resolves.yields.outcomeOf hnode.mirrors.outcomeOf ?_
    intro r s' _ hs' _ _
    rcases r with (f | fault) | v
    case error.fault =>
      -- A defect ends the pass once all that is ready has been resolved.
      exact (attempts_mirrors traps hgraph hadmits hdepth hs' hrest).bind fun _ _ _ => .throw _
    -- The pass goes on in the same way behind a failure and behind a value.
    all_goals
      refine .get_bind (.modify_bind ?_)
      have hs'' := hs'.report (s'.ownFailures address)
      dsimp only
      split
      · -- Enough errors have been collected, and nothing becomes ready any more.
        exact ihstop s' hs'' (fun a ha => absurd ha List.not_mem_nil) hrest
      · exact ihgo s' hs'' (Graph.forall_held hwaiting) (Graph.forall_released hwaiting hrest)

theorem drive_mirrors {addresses : List String} (hs : Sound engine overlay Admitted s)
    (hall : ∀ address ∈ addresses, address ∈ engine.graph.addresses) :
    Mirrors ⟨s, []⟩ (engine.drive addresses) (Watch.drive engine traps depth addresses) :=
  driveFrom_mirrors traps hgraph hadmits hdepth hs (fun a ha => hall a (List.mem_filter.mp ha).1)
    (fun a ha => hall a (List.mem_filter.mp ha).1)

theorem run_mirrors (hs : Sound engine overlay Admitted s) :
    Mirrors ⟨s, []⟩ engine.run (Watch.run engine traps depth) := by
  refine Mirrors.ofOutcome_bind _ fun order horder => ?_
  have hall := Graph.mem_addresses_of_topologicalOrder horder
  exact (drive_mirrors traps hgraph hadmits hdepth hs hall).bind fun _ _ _ => .lift _

theorem resolve_mirrors {node : NodeId} (hs : Sound engine overlay Admitted s)
    (hadmitted : engine.graph.has node.address = true → Admitted node) :
    Mirrors ⟨s, []⟩ (engine.resolve node) (Watch.resolve engine traps depth node) := by
  refine Mirrors.ofOutcome_bind _ fun _ hcheck => Mirrors.ofOutcome_bind _ fun _ _ => ?_
  have hdeclared : engine.graph.has node.address = true := by
    unfold checkNode at hcheck
    split at hcheck
    · assumption
    · cases hcheck
  exact (resolveNode_follows traps hgraph hadmits hdepth hs (hadmitted hdeclared)).mirrors

/-- The pass that follows when attributes have been supplied. -/
theorem resumption_mirrors (hs : Sound engine overlay Admitted s) (address : String) :
    Mirrors ⟨s, []⟩ (engine.resumption address) (Watch.resumption engine traps depth address) := by
  refine Mirrors.ofOutcome_bind _ fun order horder => ?_
  have hall : ∀ a ∈ Graph.among (engine.graph.dependentsClosure [address]) order,
      a ∈ engine.graph.addresses := fun a ha =>
    Graph.mem_addresses_of_topologicalOrder horder a (List.mem_filter.mp ha).1
  exact (drive_mirrors traps hgraph hadmits hdepth hs hall).bind fun _ _ _ => .lift _

end Passes

/-! ## Calls -/

section Calls

variable {engine : Engine} {s : State} (traps : Traps) {depth : Nat}
  (hgraph : engine.graph.Acyclic) (hdepth : engine.graph.size + 2 ≤ depth)
  (h : Invariant engine (fun _ node => node.address ∈ engine.graph.addresses) s)

include hgraph hdepth h

/-- Attributes are refused by both engines alike, or supplied to both. -/
theorem apply_mirrors (node : NodeId) (attributes : Table String Plain) :
    Mirrors ⟨s, []⟩ (engine.apply node attributes)
      (Watch.apply engine traps depth node attributes) := by
  refine Mirrors.ofOutcome_bind _ fun _ hcheck => Mirrors.ofOutcome_bind _ fun supplied _ => ?_
  refine Mirrors.get_bind ?_
  cases hvalue : s.value? node with
  | none => exact .throw _
  | some value =>
    refine .modify_bind ?_
    have hs := merged_sound hgraph h.sound h.distinct supplied hcheck hvalue fun _ hm _ => hm
    exact resumption_mirrors traps hgraph ((declared_lasting engine).admits _) hdepth hs
      node.address

/-- A call leaves what it leaves of the engine, and no node in progress. -/
theorem after_follows (c : Call) :
    Watch.after engine traps depth ⟨s, []⟩ c = ⟨engine.after s c, []⟩ := by
  have hadmits := (declared_lasting engine).admits s.applied
  cases c with
  | resolve node =>
    have hmirrors : Mirrors ⟨s, []⟩ (engine.resolve node) (Watch.resolve engine traps depth node) :=
      resolve_mirrors traps hgraph hadmits hdepth h.sound Graph.has_iff_mem_addresses.mp
    exact congrArg Prod.snd hmirrors
  | run => exact congrArg Prod.snd (run_mirrors traps hgraph hadmits hdepth h.sound)
  | apply node attributes =>
    exact congrArg Prod.snd (apply_mirrors traps hgraph hdepth h node attributes)

omit h in
/-- After any calls the watched engine has followed the engine. -/
theorem afterAll_follows (calls : List Call) :
    Watch.afterAll engine traps depth calls = ⟨engine.afterAll calls, []⟩ := by
  induction calls using List.reverseRecOn with
  | nil => rfl
  | append_singleton calls c ih =>
    have hinvariant := afterAll_invariant hgraph (declared_lasting engine) calls
      fun _ _ hdeclared _ => hdeclared
    have hlast : Watch.afterAll engine traps depth (calls ++ [c])
        = Watch.after engine traps depth (Watch.afterAll engine traps depth calls) c :=
      List.foldl_append
    rw [hlast, ih, afterAll_append]
    exact after_follows traps hgraph hdepth hinvariant c

end Calls

/-! ## Main statement -/

end Engine

end Groundplan
