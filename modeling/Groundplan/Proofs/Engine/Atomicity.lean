import Groundplan.Proofs.Engine.Defects
import Groundplan.Proofs.Engine.Presence

/-!
# Attributes Are Applied Wholly or Not at All

Attributes from outside are checked before anything changes, so what refuses them leaves the state
as it was.  After that they are put over those of the instance, and nothing undoes this.  A pass then
resolves the dependents anew, and of what it meets only a defect stops it.  So applying attributes
fails without a trace, unless a dependent comes to a defect with them.

## Main Statements

- `Engine.resumption_stops`: what stops the pass over the dependents
- `Engine.apply_all_or_nothing`: attributes that fail leave no trace unless a dependent comes to a
  defect
- `Engine.apply_stops_halfway`: an infinite power leaves attributes applied
-/

namespace Groundplan

namespace Engine

open Relation (TransGen)

variable {engine : Engine} {overlay : Overlay} {s s' : State} {node : NodeId}

/-- The pass over the dependents of a declaration is stopped by the defect of one of them. -/
theorem resumption_stops (hgraph : engine.graph.Acyclic)
    (hcheck : engine.graph.checkAcyclic = .ok ())
    (hs : Orderly engine overlay engine.Declared s) {address : String} {stop : Stop}
    (hrun : runFrom s (engine.resumption address) = (.error stop, s')) :
    ∃ a, TransGen engine.graph.Refers a address
      ∧ ∃ d, MeetsDefect engine overlay a d ∧ stop = .fault (.defect d) := by
  obtain ⟨order, hsorted⟩ := Graph.exists_topologicalOrder hcheck
  have hperm := hgraph.topologicalOrder_perm hsorted
  unfold resumption at hrun
  rw [runFrom_ofOutcome_bind, hsorted] at hrun
  dsimp only at hrun
  rw [runFrom_bind] at hrun
  generalize hdrive : runFrom s
    (engine.drive (Graph.among (engine.graph.dependentsClosure [address]) order)) = driven at hrun
  obtain ⟨_ | _, t⟩ := driven
  · cases hrun
    obtain ⟨a, ha, hstops⟩ := drive_stops hgraph (declared_closed hgraph overlay) hs
      (fun a ha => hperm.mem_iff.mp (List.mem_filter.mp ha).1) hdrive
    have haffected := List.contains_iff_mem.mp (List.mem_filter.mp ha).2
    exact ⟨a, (Graph.mem_dependentsClosure_iff hgraph.distinct).mp haffected, hstops⟩
  · -- The report does not stop.
    cases hrun

/-- **Attributes from outside are applied wholly or not at all, unless a dependent comes to a
defect.**  Let attributes be applied after any calls, and let this fail.  Either everything is as it
was before, or the attributes have passed all checks and a declaration that depends on the node
comes to a defect with them.  In particular no error of the language leaves a trace. -/
theorem apply_all_or_nothing {library : Library} {settings : Settings}
    {declarations : List Declaration} {inputs : Table String Plain} {engine : Engine}
    (hengine : Engine.ofDeclarations library settings declarations inputs = .ok engine)
    (calls : List Call) {node : NodeId} {attributes : Table String Plain} {stop : Stop} {s' : State}
    (hrun : runFrom (engine.afterAll calls) (engine.apply node attributes) = (.error stop, s')) :
    let s := engine.afterAll calls
    s' = s ∨ ∃ supplied d, engine.checkApplicable node = .ok ()
      ∧ readAttributes attributes = .ok supplied ∧ stop = .fault (.defect d)
      ∧ ∃ a, TransGen engine.graph.Refers a node.address
        ∧ MeetsDefect engine (supply s.applied node supplied) a d := by
  intro s
  rcases apply_cases engine s node attributes with
    ⟨fault, hrefuses⟩ | ⟨supplied, value, happlicable, hread, hvalue, hresumes⟩
  · exact .inl (Prod.mk.inj (hrefuses.symm.trans hrun)).2.symm
  · rw [hresumes] at hrun
    cases hcheck : engine.graph.checkAcyclic with
    | error fault =>
      -- Nothing has a value then.
      have hs : s = .initial := afterAll_of_cyclic hcheck calls
      rw [hs] at hvalue
      cases hvalue
    | ok _ =>
      have hgraph := acyclic_of_ofDeclarations hengine hcheck
      have hs : Kept engine s := afterAll_kept hgraph calls
      have hmerged : Orderly engine (supply s.applied node supplied) engine.Declared
          (engine.merged s node value supplied) :=
        merged_orderly hgraph hs.orderly hs.distinct happlicable hvalue fun _ hm _ => hm
      obtain ⟨a, ha, d, hdefect, hstop⟩ := resumption_stops hgraph hcheck hmerged hrun
      exact .inr ⟨supplied, d, happlicable, hread, hstop, a, ha, hdefect⟩

/-- An attribute of a disk that does not exist leaves no trace. -/
theorem apply_all_or_nothing_disk :
    let disk : Declaration := .resource ⟨"disk", "data", [], none, [], Lifecycle.none, ["id"], none⟩
    let first : Declaration := .localValue ⟨"first",
      .access none (.ref none ⟨.resource, "disk.data"⟩) "id", none⟩
    let node : NodeId := ⟨"disk.data", some (.index 7)⟩
    let e : EvalError :=
      ⟨.configuration "cannot apply attributes to unresolved node disk.data[7]" [], none, []⟩
    ∃ engine, Engine.ofDeclarations Library.standard Settings.standard [disk, first] [] = .ok engine
      ∧ runFrom (engine.afterAll [.run]) (engine.apply node [("id", .text "a")])
        = (.error (.fault (.error e)), engine.afterAll [.run]) := by
  intro disk first node e
  let engine : Engine := ⟨⟨[⟨disk, [], []⟩, ⟨first, ["disk.data"], []⟩]⟩, Library.standard,
    Settings.standard, []⟩
  have hengine : Engine.ofDeclarations Library.standard Settings.standard [disk, first] []
      = .ok engine := by
    cbv
  have hfails : (runFrom (engine.afterAll [.run]) (engine.apply node [("id", .text "a")])).1
      = .error (.fault (.error e)) := by
    cbv
  refine ⟨engine, hengine, Prod.ext hfails ?_⟩
  rcases apply_all_or_nothing hengine [.run] (Prod.ext hfails rfl) with
    hsame | ⟨_, _, _, _, hdefect, _⟩
  · exact hsame
  · cases hdefect

/-- A power of zero whose exponent becomes known as negative is a defect, and the attribute stays
applied. -/
theorem apply_stops_halfway :
    let disk : Declaration := .resource ⟨"disk", "data", [], none, [], Lifecycle.none, ["id"], none⟩
    let bad : Declaration := .localValue ⟨"bad", .call none "pow" [.literal none (.ofNat 0),
      .access none (.ref none ⟨.resource, "disk.data"⟩) "id"], none⟩
    ∃ engine s', Engine.ofDeclarations Library.standard Settings.standard [disk, bad] [] = .ok engine
      ∧ engine.graph.checkAcyclic = .ok ()
      ∧ runFrom (engine.afterAll [.run])
          (engine.apply (.ofAddress "disk.data") [("id", .integer (-1))])
        = (.error (.fault (.defect (.notFinite "Decimal('Infinity')"))), s')
      ∧ (engine.afterAll [.run]).value? (.ofAddress "disk.data") = some (.object [("id", .unknown)])
      ∧ s'.value? (.ofAddress "disk.data") = some (.object [("id", .ofInt (-1))])
      ∧ (engine.afterAll [.run]).status (.ofAddress "local.bad") = .resolved
      ∧ s'.status (.ofAddress "local.bad") = .unvisited := by
  intro disk bad
  let engine : Engine := ⟨⟨[⟨disk, [], []⟩, ⟨bad, ["disk.data"], []⟩]⟩, Library.standard,
    Settings.standard, []⟩
  have hrun : (runFrom (engine.afterAll [.run])
      (engine.apply (.ofAddress "disk.data") [("id", .integer (-1))])).1
        = .error (.fault (.defect (.notFinite "Decimal('Infinity')"))) := by
    cbv
  refine ⟨engine, _, ?_, ?_, Prod.ext hrun rfl, ?_, ?_, ?_, ?_⟩ <;> cbv

end Engine

end Groundplan
