import Groundplan.Proofs.Engine.UpToDate

/-!
# Only Defects Stop a Run

An error that the evaluation of a node meets becomes the failure of that node, and the pass goes on.
Only a defect stops a pass, and it is the verdict on one of the declarations that are driven.  So a
run succeeds if and only if no declaration comes to a defect.

## Main Statements

- `Engine.driveFrom_stops`: what the loop of a pass comes to
- `Engine.run_succeeds_iff`: when a run succeeds, and what becomes of the declarations then
-/

namespace Groundplan

namespace Engine

variable {engine : Engine} {overlay : Overlay} {Admitted : NodeId → Prop} {s s' : State}
  {addresses : List String}

/-! ## What stops a pass -/

/-- The verdict on a declaration is a defect. -/
def MeetsDefect (engine : Engine) (overlay : Overlay) (address : String) (d : Defect) : Prop :=
  engine.verdict overlay (.ofAddress address) = .error (.fault (.defect d))

/-- No declaration comes to a defect: evaluations only raise errors. -/
def RaisesErrorsOnly (engine : Engine) (overlay : Overlay) : Prop :=
  ∀ address ∈ engine.graph.addresses, ∀ d, ¬ MeetsDefect engine overlay address d

/-- A defect among the nodes that are required is not passed over. -/
theorem exists_defect_of_requireAll (hgraph : engine.graph.Acyclic) {nodes : List NodeId}
    {m : NodeId} {d : Defect} (hm : m ∈ nodes)
    (hdefect : engine.verdict overlay m = .error (.fault (.defect d))) :
    ∃ d', requireAll (engine.verdict overlay) nodes = .error (.fault (.defect d')) := by
  cases hall : requireAll (engine.verdict overlay) nodes with
  | ok _ =>
    obtain ⟨v, hv⟩ := requireAll_eq_ok_iff.mp hall m hm
    cases hdefect.symm.trans hv
  | error stop =>
    rcases stop with f | ⟨error | d'⟩
    · exact absurd hdefect ((requireAll_eq_unresolved_iff.mp hall).1 m hm _)
    · obtain ⟨m', _, hm'⟩ := exists_fault_of_requireAll hall
      exact absurd hm' (verdict_ne_error hgraph overlay m' error)
    · exact ⟨d', rfl⟩

/-- The defect of an instance is met by its template, too. -/
theorem exists_defect_of_instance (hgraph : engine.graph.Acyclic) {n : Graph.Node} {r : Resource}
    {node : NodeId} {e : Expansion} {d : Defect} (hr : n.declaration = .resource r)
    (haddress : node.address = r.address) (hkey : node.key.isSome = true)
    (he : engine.expansionOf (engine.verdict overlay) n r = .ok e)
    (hinstance : engine.instanceResult overlay (engine.verdict overlay) n r node e
      = .error (.fault (.defect d)))
    (hverdict : engine.verdict overlay node = .error (.fault (.defect d))) :
    ∃ d', engine.declarationResult overlay (engine.verdict overlay) n (.ofAddress node.address)
      = .error (.fault (.defect d')) := by
  -- The instance exists, for otherwise that would be an error.
  obtain ⟨hdeferred, hmem⟩ : e.isDeferred = false ∧ node.key ∈ e.keys := by
    unfold instanceResult at hinstance
    by_cases habsent : (e.isDeferred || !e.keys.contains node.key) = true
    · rw [if_pos habsent] at hinstance
      cases hinstance
    · simpa using habsent
  have htemplate : r.multiplicity.isSome = true := by
    by_contra hsingle
    rw [key_eq_none_of_single (by simpa using hsingle) he hmem] at hkey
    cases hkey
  have hmember : node ∈ e.keys.map fun key => (⟨r.address, key⟩ : NodeId) :=
    List.mem_map.mpr ⟨node.key, hmem, by rw [← haddress]⟩
  have hresult : engine.declarationResult overlay (engine.verdict overlay) n
      (.ofAddress node.address) = engine.templateResult (engine.verdict overlay) n r := by
    unfold declarationResult
    rw [hr]
    exact if_pos htemplate
  obtain ⟨d', hall⟩ := exists_defect_of_requireAll hgraph hmember hverdict
  refine ⟨d', ?_⟩
  rw [hresult, templateResult_eq he hdeferred, hall]
  rfl

/-- Where a node of a declaration comes to a defect, so does the declaration. -/
theorem exists_defect_of_declarationResult (hgraph : engine.graph.Acyclic) {n : Graph.Node}
    {node : NodeId} {d : Defect} (hn : engine.graph.node? node.address = some n)
    (hverdict : engine.verdict overlay node = .error (.fault (.defect d)))
    (hresult : engine.declarationResult overlay (engine.verdict overlay) n node
      = .error (.fault (.defect d))) :
    ∃ d', engine.declarationResult overlay (engine.verdict overlay) n (.ofAddress node.address)
      = .error (.fault (.defect d')) := by
  cases hkey : node.key with
  | none =>
    obtain ⟨address, key⟩ := node
    dsimp only at hkey
    subst hkey
    exact ⟨d, hresult⟩
  | some key =>
    cases hdeclaration : n.declaration with
    | input v | localValue v | output o =>
      -- The key makes no difference.
      unfold declarationResult at hresult ⊢
      rw [hdeclaration] at hresult ⊢
      exact ⟨d, hresult⟩
    | resource r =>
      have hsingle : ¬ (node.key.isNone && r.multiplicity.isSome) = true := by simp [hkey]
      unfold declarationResult at hresult
      rw [hdeclaration] at hresult
      dsimp only at hresult
      rw [if_neg hsingle] at hresult
      rcases bind_eq_error_iff.mp hresult with hexpansion | ⟨e, he, hinstance⟩
      · -- The multiplicity is evaluated for the template in the same way.
        refine ⟨d, ?_⟩
        unfold declarationResult templateResult
        rw [hdeclaration]
        dsimp only
        rw [hexpansion]
        split <;> rfl
      · exact exists_defect_of_instance hgraph hdeclaration (address_of_resource hn hdeclaration)
          (by rw [hkey]; rfl) (ofFault_eq_ok_iff.mp he) hinstance hverdict

/-- An evaluation comes to the defects that are the verdict, and to no others. -/
theorem verdict_eq_defect_iff (hgraph : engine.graph.Acyclic) {node : NodeId} {d : Defect} :
    engine.verdict overlay node = .error (.fault (.defect d))
      ↔ engine.evaluationOf overlay (engine.verdict overlay) node
        = .error (.fault (.defect d)) := by
  rw [verdict_eq hgraph]
  rcases engine.evaluationOf overlay (engine.verdict overlay) node with (f | ⟨e | d'⟩) | v <;>
    simp [conclude]

/-- A node that comes to no defect needs only such nodes. -/
theorem isRegular_of_needs (hgraph : engine.graph.Acyclic) {node m : NodeId}
    (hregular : IsRegular (engine.verdict overlay node)) (hneeds : engine.Needs overlay node m) :
    IsRegular (engine.verdict overlay m) := by
  intro d hdefect
  suffices hevaluation : ∃ d', engine.evaluationOf overlay (engine.verdict overlay) node
      = .error (.fault (.defect d')) by
    obtain ⟨d', hevaluation⟩ := hevaluation
    exact hregular d' ((verdict_eq_defect_iff hgraph).mpr hevaluation)
  cases hneeds with
  | @dependency n a hn hmissing ha =>
    obtain ⟨d', hall⟩ := exists_defect_of_requireAll hgraph (List.mem_map_of_mem ha) hdefect
    refine ⟨d', ?_⟩
    unfold evaluationOf
    rw [hn]
    dsimp only
    rw [hmissing]
    dsimp only
    rw [hall]
    rfl
  | @member n r e key he hkey =>
    have haddress := address_of_resource he.template.declared he.template.resource
    have hdeferred : e.isDeferred = false := by
      by_contra hdeferred
      rw [(keys_of_isDeferred he.expansion (by simpa using hdeferred)).2] at hkey
      cases hkey
    have hmember : (⟨node.address, key⟩ : NodeId) ∈ e.keys.map fun key => ⟨r.address, key⟩ :=
      List.mem_map.mpr ⟨key, hkey, by rw [haddress]⟩
    obtain ⟨d', hall⟩ := exists_defect_of_requireAll hgraph hmember hdefect
    refine ⟨d', ?_⟩
    rw [evaluationOf_eq he.template.declared he.declared he.required, declarationResult,
      he.template.resource]
    dsimp only
    rw [he.template.whole, he.template.multiple]
    show engine.templateResult (engine.verdict overlay) n r = _
    rw [templateResult_eq he.expansion hdeferred, hall]
    rfl

theorem regular_closed (hgraph : engine.graph.Acyclic) (overlay : Overlay) :
    Closed engine overlay fun m => engine.Declared m ∧ IsRegular (engine.verdict overlay m) :=
  fun node m hnode hneeds => ⟨declared_closed hgraph overlay node m hnode.1 hneeds,
    isRegular_of_needs hgraph hnode.2 hneeds⟩

/-- An evaluation comes to a defect with a dependency, or else when the declaration is evaluated. -/
theorem evaluationOf_defect_cases {results : NodeId → Except Stop Value} {node : NodeId} {d : Defect}
    (h : engine.evaluationOf overlay results node = .error (.fault (.defect d))) :
    ∃ n, engine.graph.node? node.address = some n ∧ n.missing = []
      ∧ ((∃ a ∈ n.dependencies, results (.ofAddress a) = .error (.fault (.defect d)))
        ∨ requireAll results (n.dependencies.map .ofAddress) = .ok ()
          ∧ engine.declarationResult overlay results n node = .error (.fault (.defect d))) := by
  unfold evaluationOf at h
  cases hn : engine.graph.node? node.address with
  | none =>
    rw [hn] at h
    cases h
  | some n =>
    rw [hn] at h
    dsimp only at h
    cases hmissing : n.missing with
    | cons first others =>
      rw [hmissing] at h
      cases h
    | nil =>
      rw [hmissing] at h
      refine ⟨n, rfl, hmissing, ?_⟩
      rcases bind_eq_error_iff.mp h with hrequired | ⟨_, hrequired, hresult⟩
      · obtain ⟨m, hm, hdefect⟩ := exists_fault_of_requireAll hrequired
        obtain ⟨a, ha, rfl⟩ := List.mem_map.mp hm
        exact .inl ⟨a, ha, hdefect⟩
      · exact .inr ⟨hrequired, hresult⟩

/-- If no declaration comes to a defect, no node does. -/
theorem isRegular_verdict (hgraph : engine.graph.Acyclic) (h : engine.RaisesErrorsOnly overlay)
    (node : NodeId) : IsRegular (engine.verdict overlay node) := by
  intro d hverdict
  have hevaluation := (verdict_eq_defect_iff hgraph).mp hverdict
  obtain ⟨n, hn, hmissing, ⟨a, ha, hdefect⟩ | ⟨hrequired, hresult⟩⟩ :=
    evaluationOf_defect_cases hevaluation
  · -- The defect is that of a dependency.
    exact h a (hgraph.mem_addresses (Graph.refers_iff.mpr ⟨n, hn, ha⟩)) d hdefect
  · have hdeclared : node.address ∈ engine.graph.addresses :=
      Graph.has_iff_mem_addresses.mp (by rw [Graph.has, hn]; rfl)
    obtain ⟨d', hwhole⟩ := exists_defect_of_declarationResult hgraph hn hverdict hresult
    refine h node.address hdeclared d' ((verdict_eq_defect_iff hgraph).mpr ?_)
    rw [evaluationOf_eq (show engine.graph.node? (NodeId.ofAddress node.address).address
      = some n from hn) hmissing hrequired]
    exact hwhole

/-- The loop of a pass is stopped by the defect of a declaration that waits or is ready. -/
theorem driveFrom_stops (hgraph : engine.graph.Acyclic) (hclosed : Closed engine overlay Admitted)
    {errors : Nat} {placed waiting ready : List String}
    (hs : Orderly engine overlay Admitted s)
    (hwaiting : ∀ a ∈ waiting, Admitted (.ofAddress a))
    (hready : ∀ a ∈ ready, Admitted (.ofAddress a)) {stop : Stop}
    (hrun : runFrom s (engine.driveFrom errors placed waiting ready) = (.error stop, s')) :
    ∃ a, (a ∈ waiting ∨ a ∈ ready) ∧ ∃ d, MeetsDefect engine overlay a d
      ∧ stop = .fault (.defect d) := by
  induction errors, placed, waiting, ready using driveFrom.induct engine generalizing s with
  | case1 errors placed waiting =>
    rw [driveFrom] at hrun
    cases hrun
  | case2 errors placed waiting address ready ihstop ihgo =>
    have haddress := hready address List.mem_cons_self
    have hrest : ∀ a ∈ ready, Admitted (.ofAddress a) :=
      fun a ha => hready a (List.mem_cons_of_mem address ha)
    obtain ⟨r, t, hresolved, ⟨fault, rfl, hstopped⟩ | ⟨_, hnext⟩⟩ := driveFrom_cons hrun
    · obtain ⟨hverdict, _⟩ := hs.resolveNode hgraph hclosed haddress hresolved
      cases hstopped
      rcases fault with e | d
      · exact absurd hverdict.symm (verdict_ne_error hgraph overlay _ e)
      · exact ⟨address, .inr List.mem_cons_self, d, hverdict.symm, rfl⟩
    · obtain ⟨_, horderly, _⟩ := hs.resolveNode hgraph hclosed haddress hresolved
      have hreported := horderly.report (t.ownFailures address)
      dsimp only at hnext
      split at hnext
      · -- Nothing waits any more.
        obtain ⟨a, ha, hstops⟩ := ihstop t hreported (fun a ha => absurd ha List.not_mem_nil)
          hrest hnext
        have hmem := ha.resolve_left List.not_mem_nil
        exact ⟨a, .inr (List.mem_cons_of_mem address hmem), hstops⟩
      · obtain ⟨a, ha, hstops⟩ := ihgo t hreported (Graph.forall_held hwaiting)
          (Graph.forall_released hwaiting hrest) hnext
        refine ⟨a, ?_, hstops⟩
        rcases ha with hheld | ha
        · exact .inl (List.mem_filter.mp hheld).1
        · rcases List.mem_append.mp ha with ha | hreleased
          · exact .inr (List.mem_cons_of_mem address ha)
          · exact .inl (List.mem_filter.mp hreleased).1

theorem drive_stops (hgraph : engine.graph.Acyclic) (hclosed : Closed engine overlay Admitted)
    (hs : Orderly engine overlay Admitted s) (hall : ∀ a ∈ addresses, Admitted (.ofAddress a))
    {stop : Stop} (hrun : runFrom s (engine.drive addresses) = (.error stop, s')) :
    ∃ a ∈ addresses, ∃ d, MeetsDefect engine overlay a d ∧ stop = .fault (.defect d) := by
  obtain ⟨a, ha, hstops⟩ := driveFrom_stops hgraph hclosed hs
    (fun a ha => hall a (List.mem_filter.mp ha).1) (fun a ha => hall a (List.mem_filter.mp ha).1)
    hrun
  exact ⟨a, ha.elim (fun ha => (List.mem_filter.mp ha).1) fun ha => (List.mem_filter.mp ha).1,
    hstops⟩

/-- A run is stopped by the defect of a declaration. -/
theorem run_stops (hgraph : engine.graph.Acyclic) (hcheck : engine.graph.checkAcyclic = .ok ())
    (hs : Orderly engine overlay engine.Declared s) {stop : Stop}
    (hrun : runFrom s engine.run = (.error stop, s')) :
    ∃ a ∈ engine.graph.addresses, ∃ d, MeetsDefect engine overlay a d
      ∧ stop = .fault (.defect d) := by
  obtain ⟨order, hsorted⟩ := Graph.exists_topologicalOrder hcheck
  have hperm := hgraph.topologicalOrder_perm hsorted
  unfold run at hrun
  rw [runFrom_ofOutcome_bind, hsorted] at hrun
  dsimp only at hrun
  rw [runFrom_bind] at hrun
  generalize hdrive : runFrom s (engine.drive order) = driven at hrun
  obtain ⟨_ | _, t⟩ := driven
  · cases hrun
    obtain ⟨a, ha, hstops⟩ := drive_stops hgraph (declared_closed hgraph overlay) hs
      (fun a ha => hperm.mem_iff.mp ha) hdrive
    exact ⟨a, hperm.mem_iff.mp ha, hstops⟩
  · cases hrun

/-! ## When a run succeeds -/

/-- What has become of a declaration after a run that succeeds. -/
theorem settled_after_run (hgraph : engine.graph.Acyclic)
    (hunlimited : engine.settings.maxErrors = 0) (hs : Orderly engine overlay engine.Declared s)
    {report : Report} (hrun : runFrom s engine.run = (.ok report, s')) :
    ∀ a ∈ engine.graph.addresses, ∃ outcome,
      Table.get? s'.settled (.ofAddress a) = some outcome
        ∧ outcome.result = engine.verdict overlay (.ofAddress a) := by
  intro a ha
  obtain ⟨outcome, houtcome⟩ := Option.isSome_iff_exists.mp
    (run_settles hgraph hunlimited hs hrun a ha)
  have hafter : Orderly engine overlay engine.Declared s' := by
    have hpreserves : Preserves (Orderly engine overlay engine.Declared) engine.run :=
      run_preserves (fun _ haddress =>
        resolveNode_orderly hgraph (declared_closed hgraph overlay) haddress)
        fun _ nodes ht => ht.report nodes
    have hafter := hpreserves s hs
    rwa [hrun] at hafter
  exact ⟨outcome, houtcome, hafter.sound.settled _ _ houtcome⟩

/-- **A run succeeds unless a declaration comes to a defect.**  Without a limit on failures, it
settles every declaration then, and an error that the evaluation of one meets is the failure of that
one.  What stops a run otherwise is the defect of a declaration. -/
theorem run_succeeds_iff {library : Library} {settings : Settings}
    {declarations : List Declaration} {inputs : Table String Plain} {engine : Engine}
    (hengine : Engine.ofDeclarations library settings declarations inputs = .ok engine)
    (hcheck : engine.graph.checkAcyclic = .ok ()) (hunlimited : engine.settings.maxErrors = 0)
    (calls : List Call) :
    let s := engine.afterAll calls
    ((∃ report s', runFrom s engine.run = (.ok report, s'))
        ↔ ∀ a ∈ engine.graph.addresses, ∀ d, ¬ MeetsDefect engine s.applied a d)
      ∧ (∀ report s', runFrom s engine.run = (.ok report, s') →
          ∀ a ∈ engine.graph.addresses, s'.status (.ofAddress a) ≠ .unvisited
            ∧ ∀ e, engine.evaluationOf s.applied (engine.verdict s.applied) (.ofAddress a)
                = .error (.fault (.error e)) →
              Table.get? s'.settled (.ofAddress a)
                = some (.failure (.own (.ofAddress a) e)))
      ∧ ∀ stop s', runFrom s engine.run = (.error stop, s') →
          ∃ a ∈ engine.graph.addresses, ∃ d, MeetsDefect engine s.applied a d
            ∧ stop = .fault (.defect d) := by
  intro s
  have hgraph := acyclic_of_ofDeclarations hengine hcheck
  have hs := (afterAll_kept hgraph calls).orderly
  refine ⟨⟨?_, ?_⟩, ?_, fun stop s' hrun => run_stops hgraph hcheck hs hrun⟩
  · rintro ⟨report, s', hrun⟩ a ha d hdefect
    obtain ⟨outcome, _, hresult⟩ := settled_after_run hgraph hunlimited hs hrun a ha
    rw [hdefect] at hresult
    cases outcome <;> cases hresult
  · intro hregular
    obtain ⟨result, s', hrun⟩ : ∃ result s', runFrom s engine.run = (result, s') := ⟨_, _, rfl⟩
    cases result with
    | ok report => exact ⟨report, s', hrun⟩
    | error stop =>
      obtain ⟨a, ha, d, hdefect, _⟩ := run_stops hgraph hcheck hs hrun
      exact absurd hdefect (hregular a ha d)
  · intro report s' hrun a ha
    obtain ⟨outcome, houtcome, hresult⟩ := settled_after_run hgraph hunlimited hs hrun a ha
    refine ⟨?_, fun e he => ?_⟩
    · rw [State.status, houtcome]
      cases outcome with
      | value v => simp
      | failure f => cases hskipped : f.isSkipped <;> simp [hskipped]
    · rw [verdict_eq hgraph, he] at hresult
      rw [houtcome]
      cases outcome <;> cases hresult
      rfl

end Engine

end Groundplan
