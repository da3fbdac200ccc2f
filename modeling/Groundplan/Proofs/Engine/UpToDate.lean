import Groundplan.Proofs.Engine.Confluence

/-!
# Complete Passes Settle All Declarations

A run that succeeds and is not stopped by failures settles every declaration.  When attributes are
supplied afterwards, the dependents of the instance are settled anew, and all other declarations
stay settled.

## Main Definitions

- `Engine.UpToDate`: after a run, and after attributes have been supplied to it

## Main Statements

- `Engine.drive_settles`: a pass that succeeds settles what it drives
- `Engine.drive_of_apply`: supplying attributes drives dependents
- `Engine.UpToDate.settled`: all declarations are settled
-/

namespace Groundplan

namespace Engine

variable {engine : Engine} {overlay : Overlay} {Admitted : NodeId → Prop} {s s' : State}
  {addresses : List String}

/-! ## Passes that succeed -/

/-- A pass that succeeds settles what it drives. -/
theorem drive_settles (hgraph : engine.graph.Acyclic) (hunlimited : engine.settings.maxErrors = 0)
    (hdistinct : addresses.Nodup) (hs : Orderly engine overlay Admitted s)
    (hrun : runFrom s (engine.drive addresses) = (.ok (), s')) :
    (∀ a ∈ addresses, s'.IsSettled (.ofAddress a)) ∧ Extends s s' := by
  obtain ⟨d, hexecutes, hidle, rfl⟩ := drive_executes hgraph hdistinct hrun
  have hvalid := (Drive.Valid.start hdistinct hs).executes hgraph hs.complete hexecutes
  have hall := (hvalid.ordered hgraph).ends (.inl hunlimited) hidle
  exact ⟨fun a ha => hvalid.settled a (hall a ha), hvalid.advances.toExtends⟩

/-- A pass that succeeds has driven declarations and reported on what has become of them. -/
theorem drive_report_ok {report : Report}
    (hrun : runFrom s (do engine.drive addresses; engine.report) = (.ok report, s')) :
    ∃ t, runFrom s (engine.drive addresses) = (.ok (), t) ∧ report = engine.reportOf t
      ∧ s' = t.report report.failed := by
  rw [runFrom_bind] at hrun
  generalize hdrive : runFrom s (engine.drive addresses) = driven at hrun
  obtain ⟨_ | _, t⟩ := driven
  · cases hrun
  · cases hrun
    exact ⟨t, rfl, rfl, rfl⟩

/-- A run succeeds if its pass does. -/
theorem run_eq_of_drive {order : List String} {t : State}
    (hsorted : engine.graph.topologicalOrder = .ok order)
    (hdrive : runFrom s (engine.drive order) = (.ok (), t)) :
    runFrom s engine.run = (.ok (engine.reportOf t), t.report (engine.reportOf t).failed) := by
  rw [run, runFrom_ofOutcome_bind, hsorted]
  dsimp only
  rw [runFrom_bind, hdrive]
  rfl

/-- A run that succeeds reports on the state that it leaves. -/
theorem report_of_run {report : Report} (hrun : runFrom s engine.run = (.ok report, s')) :
    report = engine.reportOf s' := by
  rw [run, runFrom_ofOutcome_bind] at hrun
  cases hsorted : engine.graph.topologicalOrder with
  | error fault =>
    rw [hsorted] at hrun
    cases hrun
  | ok order =>
    rw [hsorted] at hrun
    dsimp only at hrun
    rw [runFrom_bind] at hrun
    generalize runFrom s (engine.drive order) = driven at hrun
    obtain ⟨_ | _, t⟩ := driven
    · cases hrun
    · -- What has been reported makes no difference to a report.
      cases hrun
      rfl

/-- A run that succeeds settles all declarations. -/
theorem run_settles (hgraph : engine.graph.Acyclic) (hunlimited : engine.settings.maxErrors = 0)
    (hs : Orderly engine overlay Admitted s) {report : Report}
    (hrun : runFrom s engine.run = (.ok report, s')) :
    ∀ a ∈ engine.graph.addresses, s'.IsSettled (.ofAddress a) := by
  unfold run at hrun
  rw [runFrom_ofOutcome_bind] at hrun
  cases hsorted : engine.graph.topologicalOrder with
  | error fault =>
    rw [hsorted] at hrun
    cases hrun
  | ok order =>
    rw [hsorted] at hrun
    have hperm := hgraph.topologicalOrder_perm hsorted
    obtain ⟨t, hdrive, _, rfl⟩ := drive_report_ok hrun
    intro a ha
    exact (drive_settles hgraph hunlimited (hperm.nodup_iff.mpr hgraph.distinct) hs hdrive).1 a
      (hperm.mem_iff.mpr ha)

/-- Attributes that are supplied with success have been put over those of the node, and its
dependents have been driven. -/
theorem drive_of_apply {node : NodeId} {attributes : Table String Plain} {report : Report}
    (hrun : runFrom s (engine.apply node attributes) = (.ok report, s')) :
    ∃ supplied value order t, engine.checkApplicable node = .ok ()
      ∧ readAttributes attributes = .ok supplied ∧ s.value? node = some value
      ∧ engine.graph.topologicalOrder = .ok order
      ∧ runFrom (engine.merged s node value supplied)
          (engine.drive (Graph.among (engine.graph.dependentsClosure [node.address]) order))
        = (.ok (), t)
      ∧ report = engine.reportOf t ∧ s' = t.report report.failed := by
  rcases apply_cases engine s node attributes with
    ⟨fault, hfails⟩ | ⟨supplied, value, hcheck, hread, hvalue, hresumes⟩
  · rw [hfails] at hrun
    cases hrun
  · rw [hresumes] at hrun
    unfold resumption at hrun
    rw [runFrom_ofOutcome_bind] at hrun
    cases hsorted : engine.graph.topologicalOrder with
    | error fault =>
      rw [hsorted] at hrun
      cases hrun
    | ok order =>
      rw [hsorted] at hrun
      obtain ⟨t, hdrive, hreport, hafter⟩ := drive_report_ok hrun
      exact ⟨supplied, value, order, t, hcheck, hread, hvalue, rfl, hdrive, hreport, hafter⟩

/-- Attributes that are supplied with success leave all declarations settled. -/
theorem apply_settles (hgraph : engine.graph.Acyclic) (hunlimited : engine.settings.maxErrors = 0)
    (hs : Orderly engine overlay Admitted s) (hdistinct : Distinct overlay) {node : NodeId}
    {attributes : Table String Plain} {report : Report}
    (hsettled : ∀ a ∈ engine.graph.addresses, s.IsSettled (.ofAddress a))
    (hrun : runFrom s (engine.apply node attributes) = (.ok report, s')) :
    ∀ a ∈ engine.graph.addresses, s'.IsSettled (.ofAddress a) := by
  obtain ⟨supplied, value, order, t, hcheck, _, hvalue, hsorted, hdrive, _, rfl⟩ :=
    drive_of_apply hrun
  have hperm := hgraph.topologicalOrder_perm hsorted
  obtain ⟨hdriven, hextends⟩ := drive_settles hgraph hunlimited
    ((hperm.nodup_iff.mpr hgraph.distinct).filter _)
    (merged_orderly hgraph hs hdistinct hcheck hvalue fun _ hm _ => hm) hdrive
  intro a ha
  -- What depends on the declaration is driven, and all else is still settled.
  by_cases haffected : a ∈ engine.graph.dependentsClosure [node.address]
  · apply hdriven
    exact List.mem_filter.mpr ⟨hperm.mem_iff.mpr ha, List.contains_iff_mem.mpr haffected⟩
  · rw [Graph.mem_dependentsClosure_iff hgraph.distinct] at haffected
    apply hextends.isSome
    exact (isSettled_merged_iff hgraph hvalue _).mpr ⟨haffected, hsettled a ha⟩

/-! ## States that are up to date -/

/-- A run has succeeded after any calls, and since then attributes have been supplied with success
and nodes have been resolved. -/
inductive UpToDate (engine : Engine) : State → Prop where
  | run (calls : List Call) {report : Report} {s' : State}
      (succeeds : runFrom (engine.afterAll calls) engine.run = (.ok report, s')) :
      UpToDate engine s'
  | apply {s s' : State} (earlier : UpToDate engine s) {node : NodeId}
      {attributes : Table String Plain} {report : Report}
      (succeeds : runFrom s (engine.apply node attributes) = (.ok report, s')) :
      UpToDate engine s'
  | resolve {s : State} (earlier : UpToDate engine s) (node : NodeId) :
      UpToDate engine (engine.after s (.resolve node))

namespace UpToDate

/-- After a run the state is up to date, and the report has changed nothing of what is settled. -/
theorem run_of_drive (calls : List Call) {order : List String}
    (hsorted : engine.graph.topologicalOrder = .ok order)
    (hdrive : (runFrom (engine.afterAll calls) (engine.drive order)).1 = .ok ()) :
    ∃ s, UpToDate engine s
      ∧ s.settled = (runFrom (engine.afterAll calls) (engine.drive order)).2.settled := by
  generalize hdriven : runFrom (engine.afterAll calls) (engine.drive order) = driven at hdrive
  obtain ⟨r, t⟩ := driven
  dsimp only at hdrive
  subst hdrive
  exact ⟨_, .run calls (run_eq_of_drive hsorted hdriven), rfl⟩

/-- Such a state is one that calls leave. -/
theorem exists_calls (h : UpToDate engine s) : ∃ calls, s = engine.afterAll calls := by
  induction h with
  | run calls hrun =>
    refine ⟨calls ++ [.run], ?_⟩
    rw [afterAll_append, after, hrun]
  | @apply _ _ _ node attributes _ hrun ih =>
    obtain ⟨calls, rfl⟩ := ih
    refine ⟨calls ++ [.apply node attributes], ?_⟩
    rw [afterAll_append, after, hrun]
  | resolve _ node ih =>
    obtain ⟨calls, rfl⟩ := ih
    exact ⟨calls ++ [.resolve node], (afterAll_append engine calls _).symm⟩

theorem kept (hgraph : engine.graph.Acyclic) (h : UpToDate engine s) : Kept engine s := by
  obtain ⟨calls, rfl⟩ := h.exists_calls
  exact afterAll_kept hgraph calls

/-- All declarations are settled. -/
theorem settled (hgraph : engine.graph.Acyclic) (hunlimited : engine.settings.maxErrors = 0)
    (h : UpToDate engine s) : ∀ a ∈ engine.graph.addresses, s.IsSettled (.ofAddress a) := by
  induction h with
  | run calls hrun => exact run_settles hgraph hunlimited (afterAll_kept hgraph calls).orderly hrun
  | apply hearlier hrun ih =>
    have hkept := hearlier.kept hgraph
    exact apply_settles hgraph hunlimited hkept.orderly hkept.distinct ih hrun
  | @resolve s hearlier node ih =>
    intro a ha
    have hresolves : Preserves (fun t => Orderly engine s.applied engine.Declared t
        ∧ t.IsSettled (.ofAddress a)) (engine.resolve node) := by
      refine resolve_preserves fun hdeclared t ht => ?_
      obtain ⟨_, horderly, hadvances, _⟩ := ht.1.resolveNode hgraph
        (declared_closed hgraph s.applied) (Graph.has_iff_mem_addresses.mp hdeclared)
        Prod.mk.eta.symm
      exact ⟨horderly, hadvances.isSome ht.2⟩
    exact (hresolves s ⟨(hearlier.kept hgraph).orderly, ih a ha⟩).2

end UpToDate

end Engine

end Groundplan
