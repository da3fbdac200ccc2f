import Groundplan.Proofs.Engine.Lifecycle
import Groundplan.Proofs.Engine.Locality

/-!
# Which Nodes Are Reported

Present are the declarations and the instances that their templates have been expanded to.  A node
needs only nodes that exist, and once an instance is settled, its template has been expanded.  So
every node that a call settles is present, except for the one that it has been asked for: resolving
a node keeps what becomes of it under any key, and neither is a key of a variable, a local value or
an output looked at.

Attributes from outside change expansions, but of the declarations that they change they forget all
nodes.  So a node that has been present when it was settled stays present as long as it is settled.

## Main Definitions

- `Report.TellsOf`: a report lists a node
- `Engine.IsPresent`: a declaration, or an instance of its expansion

## Main Statements

- `Engine.after_extends`: a call keeps what is settled where it begins
- `Engine.present_after`: what a call settles is present, or has been asked for
- `Engine.present_of_resolve`: of resources only present nodes have values
- `Engine.reported_nodes_present`
-/

namespace Groundplan

/-- A report tells of a node if it lists a value or a failure of it. -/
def Report.TellsOf (report : Report) (node : NodeId) : Prop :=
  node ∈ Table.keys report.values ∨ node ∈ report.failures.map Failure.node

namespace Engine

variable {engine : Engine} {overlay : Overlay} {Admitted : NodeId → Prop} {s s' : State}
  {node : NodeId}

/-! ## Present nodes -/

/-- One of the instances that a template has been expanded to. -/
def State.HasInstance (s : State) (node : NodeId) : Prop :=
  ∃ e, Table.get? s.expansions node.address = some e ∧ node.key ∈ e.keys

/-- A declaration, or one of the instances that it has been expanded to. -/
def IsPresent (engine : Engine) (s : State) (node : NodeId) : Prop :=
  engine.Declared node ∧ (node.key = none ∨ s.HasInstance node)

theorem IsPresent.mono (h : engine.IsPresent s node)
    (hkept : ∀ e, Table.get? s.expansions node.address = some e →
      Table.get? s'.expansions node.address = some e) : engine.IsPresent s' node := by
  refine ⟨h.1, h.2.imp_right ?_⟩
  rintro ⟨e, he, hkey⟩
  exact ⟨e, hkept e he, hkey⟩

/-- A settled node that exists has been expanded to. -/
theorem Orderly.present_of_existing (hs : Orderly engine overlay Admitted s)
    (hnode : s.IsSettled node) (hexists : engine.Existing overlay node) :
    engine.IsPresent s node := by
  refine ⟨hexists.1, hexists.2.imp_right ?_⟩
  rintro ⟨n, r, e, he, hkey⟩
  exact ⟨e, (hs.complete node hnode).expanded n r e he, hkey⟩

/-- Whatever else may be settled, nodes only need nodes that exist. -/
theorem existing_or_closed (hgraph : engine.graph.Acyclic) (overlay : Overlay)
    (Other : NodeId → Prop) :
    Closed engine overlay fun m => engine.Declared m ∧ (engine.Existing overlay m ∨ Other m) := by
  intro node m hnode hneeds
  have hm := existing_of_needs hgraph hnode.1 hneeds
  exact ⟨hm.1, .inl hm⟩

/-! ## Calls -/

/-- A call resolves nodes that may be settled, and keeps what is settled where it begins. -/
theorem after_extends (hgraph : engine.graph.Acyclic) (hclosed : Closed engine overlay Admitted)
    (hdeclared : ∀ a ∈ engine.graph.addresses, Admitted (.ofAddress a)) (c : Call)
    (hresolve : ∀ m, c = .resolve m → engine.Declared m → Admitted m)
    (hs : Orderly engine overlay Admitted (engine.beginning s c)) :
    Orderly engine overlay Admitted (engine.after s c)
      ∧ Extends (engine.beginning s c) (engine.after s c) := by
  have hnode : ∀ start m, Admitted m →
      Preserves (fun t => Orderly engine overlay Admitted t ∧ Extends start t)
        (engine.resolveNode m) := by
    intro start m hm t ht
    obtain ⟨_, horderly, hadvances, _⟩ := ht.1.resolveNode hgraph hclosed hm Prod.mk.eta.symm
    exact ⟨horderly, ht.2.trans hadvances.toExtends⟩
  have hreport : ∀ start t nodes, Orderly engine overlay Admitted t ∧ Extends start t →
      Orderly engine overlay Admitted (t.report nodes) ∧ Extends start (t.report nodes) :=
    fun start t nodes ht => ⟨ht.1.report nodes, ht.2.settled, ht.2.expansions⟩
  have hfirst : Orderly engine overlay Admitted (engine.beginning s c)
      ∧ Extends (engine.beginning s c) (engine.beginning s c) := ⟨hs, .refl _⟩
  cases c with
  | resolve m =>
    exact resolve_preserves
      (fun hhas => hnode _ m (hresolve m rfl (Graph.has_iff_mem_addresses.mp hhas))) s hfirst
  | run => exact run_preserves (fun a ha => hnode _ _ (hdeclared a ha)) (hreport _) s hfirst
  | apply m attributes =>
    rcases beginning_apply_cases engine s m attributes with
      ⟨hbeginning, hafter⟩ | ⟨supplied, value, _, _, hbeginning, hafter⟩
    · rw [hafter]
      rwa [hbeginning] at hfirst ⊢
    · rw [hafter]
      rw [hbeginning] at hfirst ⊢
      exact resumption_preserves (fun a ha => hnode _ _ (hdeclared a ha)) (hreport _) m.address _
        hfirst

/-- What is settled where a call begins has been settled before, with the same expansion. -/
theorem settled_of_beginning (hgraph : engine.graph.Acyclic) (c : Call)
    (hnode : (engine.beginning s c).IsSettled node) :
    s.IsSettled node ∧ Table.get? (engine.beginning s c).expansions node.address
      = Table.get? s.expansions node.address := by
  cases c with
  | resolve m => exact ⟨hnode, rfl⟩
  | run => exact ⟨hnode, rfl⟩
  | apply m attributes =>
    rcases beginning_apply_cases engine s m attributes with
      ⟨hbeginning, _⟩ | ⟨supplied, value, _, hvalue, hbeginning, _⟩
    · rw [hbeginning] at hnode ⊢
      exact ⟨hnode, rfl⟩
    · rw [hbeginning] at hnode ⊢
      obtain ⟨hunrelated, hsettled⟩ := (isSettled_merged_iff hgraph hvalue node).mp hnode
      rw [← Graph.mem_dependentsClosure_iff hgraph.distinct] at hunrelated
      refine ⟨hsettled, ?_⟩
      unfold merged
      dsimp only
      rw [get?_expansions_forgetAll, if_neg hunrelated, merge_expansions]

/-- What is settled after a call is present, or it is what has been asked for, or it has been
settled before; then it is still present if it has been. -/
theorem present_after (hgraph : engine.graph.Acyclic) (hs : Kept engine s) (c : Call)
    (hnode : (engine.after s c).IsSettled node) :
    engine.IsPresent (engine.after s c) node ∨ c = .resolve node
      ∨ s.IsSettled node
        ∧ (engine.IsPresent s node → engine.IsPresent (engine.after s c) node) := by
  have hbeginning := (beginning_kept hgraph hs c).orderly
  obtain ⟨hafter, hextends⟩ := after_extends hgraph
    (existing_or_closed hgraph (engine.beginning s c).applied fun m =>
      (engine.beginning s c).IsSettled m ∨ c = .resolve m)
    (fun a ha => ⟨ha, .inl ⟨ha, .inl rfl⟩⟩) c (fun m hm hdeclared => ⟨hdeclared, .inr (.inr hm)⟩)
    (hbeginning.mono fun m hm => by
      obtain ⟨outcome, houtcome⟩ := Option.isSome_iff_exists.mp hm
      exact ⟨hbeginning.sound.admitted m outcome houtcome, .inr (.inl hm)⟩)
  obtain ⟨outcome, houtcome⟩ := Option.isSome_iff_exists.mp hnode
  obtain ⟨_, hexists | hearlier | hasked⟩ := hafter.sound.admitted node outcome houtcome
  · exact .inl (hafter.present_of_existing hnode hexists)
  · obtain ⟨hsettled, hexpansions⟩ := settled_of_beginning hgraph c hearlier
    refine .inr (.inr ⟨hsettled, fun hpresent => hpresent.mono fun e he => ?_⟩)
    exact hextends.expansions _ _ (hexpansions.trans he)
  · exact .inr (.inl hasked)

/-- What is settled after any calls is present, unless a call has asked for it and it has not been
present then. -/
theorem present_afterAll (hgraph : engine.graph.Acyclic) (calls : List Call)
    (hnode : (engine.afterAll calls).IsSettled node) :
    engine.IsPresent (engine.afterAll calls) node
      ∨ ∃ earlier later, calls = earlier ++ .resolve node :: later
          ∧ ¬ engine.IsPresent (engine.afterAll (earlier ++ [.resolve node])) node := by
  induction calls using List.reverseRecOn with
  | nil => cases hnode
  | append_singleton calls c ih =>
    rw [afterAll_append] at hnode ⊢
    rcases present_after hgraph (afterAll_kept hgraph calls) c hnode with
      hpresent | rfl | ⟨hsettled, hkept⟩
    · exact .inl hpresent
    · rw [← afterAll_append]
      by_cases hpresent : engine.IsPresent (engine.afterAll (calls ++ [.resolve node])) node
      · exact .inl hpresent
      · exact .inr ⟨calls, [], rfl, hpresent⟩
    · rcases ih hsettled with hpresent | ⟨earlier, later, rfl, habsent⟩
      · exact .inl (hkept hpresent)
      · exact .inr ⟨earlier, later ++ [c], by simp, habsent⟩

/-! ## Nodes that are asked for -/

/-- Nothing is known of a node that no declaration has, and asking for it changes nothing. -/
theorem resolve_of_undeclared (h : ¬ engine.Declared node) (s : State) :
    runFrom s (engine.resolve node)
      = (.error (.fault (.error ⟨.undefinedSymbol node.text [], none, []⟩)), s) := by
  have hcheck : engine.checkNode node = fail (.undefinedSymbol node.text []) none :=
    if_neg fun hhas => h (Graph.has_iff_mem_addresses.mp hhas)
  unfold resolve
  rw [runFrom_ofOutcome_bind, hcheck]
  rfl

/-- The verdict on an instance of a resource is a value only if the resource expands to it. -/
theorem existing_of_verdict (hgraph : engine.graph.Acyclic) {n : Graph.Node} {r : Resource}
    {v : Value} (hn : engine.graph.node? node.address = some n) (hr : n.declaration = .resource r)
    (hverdict : engine.verdict overlay node = .ok v) : engine.Existing overlay node := by
  refine ⟨Graph.has_iff_mem_addresses.mp (by rw [Graph.has, hn]; rfl), ?_⟩
  cases hkey : node.key with
  | none => exact .inl rfl
  | some key =>
    rw [verdict_eq hgraph, conclude_eq_ok_iff] at hverdict
    obtain ⟨hmissing, hrequired⟩ := required_of_evaluationOf hn hverdict
    rw [evaluationOf_eq hn hmissing hrequired, declarationResult, hr, hkey] at hverdict
    obtain ⟨e, he, hinstance⟩ := bind_eq_ok_iff.mp hverdict
    have he := ofFault_eq_ok_iff.mp he
    have hmember := (instanceResult_eq_ok_iff.mp hinstance).2.1
    rw [hkey] at hmember
    have hmultiple : r.multiplicity.isSome = true := by
      rw [Option.isSome_iff_ne_none]
      intro hsingle
      cases key_eq_none_of_single hsingle he hmember
    exact .inr ⟨n, r, e, ⟨⟨hn, hr, hmultiple, rfl⟩, hmissing, hrequired, he⟩, hmember⟩

/-- Of resources only nodes that are present have values. -/
theorem present_of_resolve (hgraph : engine.graph.Acyclic) (hs : Kept engine s) {r : Resource}
    {v : Value} (hr : engine.graph.declaration? node.address = some (.resource r))
    (hrun : runFrom s (engine.resolve node) = (.ok v, s')) : engine.IsPresent s' node := by
  obtain ⟨n, hn, hresource⟩ := Option.map_eq_some_iff.mp hr
  have hdeclared : engine.Declared node :=
    Graph.has_iff_mem_addresses.mp (by rw [Graph.has, hn]; rfl)
  unfold resolve at hrun
  rw [runFrom_ofOutcome_bind] at hrun
  split at hrun
  · rw [runFrom_ofOutcome_bind] at hrun
    split at hrun
    · obtain ⟨hverdict, horderly, _, hsettled⟩ :=
        hs.orderly.resolveNode hgraph (declared_closed hgraph _) hdeclared hrun
      exact horderly.present_of_existing (hsettled (isRegular_ok v))
        (existing_of_verdict hgraph hn hresource hverdict.symm)
    · cases hrun
  · cases hrun

/-! ## Reports -/

/-- A report tells of settled nodes only. -/
theorem Orderly.isSettled_of_tellsOf (hgraph : engine.graph.Acyclic)
    (hs : Orderly engine overlay Admitted s) (h : (engine.reportOf s).TellsOf node) :
    s.IsSettled node := by
  rcases h with hvalue | hfailure
  · rw [← Table.has_iff_mem_keys, Table.has, Option.isSome_iff_exists] at hvalue
    obtain ⟨v, hv⟩ := hvalue
    exact State.isSettled_of_value? (hs.reported_value_iff.mp hv)
  · obtain ⟨f, hf, rfl⟩ := List.mem_map.mp hfailure
    exact State.isSettled_of_get? ((hs.mem_reported_failures_iff hgraph).mp hf)

/-! ## Cyclic declarations -/

/-- Nothing is ever settled if the declarations have a cycle. -/
theorem afterAll_of_cyclic {fault : Fault} (hcheck : engine.graph.checkAcyclic = .error fault)
    (calls : List Call) : engine.afterAll calls = .initial := by
  have hafter : ∀ c, engine.after .initial c = .initial := by
    intro c
    cases c with
    | resolve m =>
      show (runFrom .initial (engine.resolve m)).2 = .initial
      unfold resolve
      rw [runFrom_ofOutcome_bind]
      split
      · rw [runFrom_ofOutcome_bind, hcheck]
      · rfl
    | run =>
      show (runFrom .initial engine.run).2 = .initial
      unfold run Graph.topologicalOrder
      rw [hcheck]
      rfl
    | apply m attributes =>
      rcases apply_cases engine .initial m attributes with
        ⟨fault', hrun⟩ | ⟨_, _, _, _, hvalue, _⟩
      · rw [after, hrun]
      · cases hvalue
  unfold afterAll
  induction calls with
  | nil => rfl
  | cons c calls ih => rw [List.foldl_cons, hafter c, ih]

/-! ## Main statement -/

/-- **Reports tell of declarations and of the instances of their expansions.**  After any calls
every node that a report tells of is present, unless a call has asked for it although it was not
present then.  Nodes of undeclared addresses cannot be asked for: that raises an error and changes
nothing.  If a node of a resource is asked for and it is not present, there is no value of it. -/
theorem reported_nodes_present {library : Library} {settings : Settings}
    {declarations : List Declaration} {inputs : Table String Plain} {engine : Engine}
    (hengine : Engine.ofDeclarations library settings declarations inputs = .ok engine)
    (calls : List Call) :
    let s := engine.afterAll calls
    (∀ node, (engine.reportOf s).TellsOf node →
        engine.IsPresent s node
          ∨ ∃ earlier later, calls = earlier ++ .resolve node :: later
              ∧ ¬ engine.IsPresent (engine.afterAll (earlier ++ [.resolve node])) node)
      ∧ (∀ node, ¬ engine.Declared node →
          runFrom s (engine.resolve node)
            = (.error (.fault (.error ⟨.undefinedSymbol node.text [], none, []⟩)), s))
      ∧ ∀ node r v s', engine.graph.declaration? node.address = some (.resource r) →
          runFrom s (engine.resolve node) = (.ok v, s') → engine.IsPresent s' node := by
  intro s
  cases hcheck : engine.graph.checkAcyclic with
  | error fault =>
    have hs : s = .initial := afterAll_of_cyclic hcheck calls
    refine ⟨fun node htells => ?_, fun node hnode => resolve_of_undeclared hnode s,
      fun node r v s' _ hrun => ?_⟩
    · rw [hs] at htells
      rcases htells with hvalue | hfailure
      · cases hvalue
      · cases hfailure
    · unfold resolve at hrun
      rw [runFrom_ofOutcome_bind] at hrun
      split at hrun
      · rw [runFrom_ofOutcome_bind, hcheck] at hrun
        cases hrun
      · cases hrun
  | ok _ =>
    have hgraph := acyclic_of_ofDeclarations hengine hcheck
    have hs := afterAll_kept hgraph calls
    exact ⟨fun node htells =>
        present_afterAll hgraph calls (hs.orderly.isSettled_of_tellsOf hgraph htells),
      fun node hnode => resolve_of_undeclared hnode s,
      fun node r v s' hr hrun => present_of_resolve hgraph hs hr hrun⟩

/-- Both of two disks are reported after a run. -/
theorem reported_nodes_present_disks :
    let disks : Declaration := .resource ⟨"disk", "data", [], some (.literal none (.ofNat 2)), [],
      Lifecycle.none, [], none⟩
    let node : NodeId := ⟨"disk.data", some (.index 1)⟩
    ∃ engine, Engine.ofDeclarations Library.standard Settings.standard [disks] [] = .ok engine
      ∧ (engine.reportOf (engine.afterAll [.run])).TellsOf node
      ∧ engine.IsPresent (engine.afterAll [.run]) node := by
  intro disks node
  let engine : Engine := ⟨⟨[⟨disks, [], []⟩]⟩, Library.standard, Settings.standard, []⟩
  have hengine : Engine.ofDeclarations Library.standard Settings.standard [disks] []
      = .ok engine := by
    cbv
  have hlisted : (Table.keys (engine.reportOf (engine.afterAll [.run])).values).contains node
      = true := by
    cbv
  have htells : (engine.reportOf (engine.afterAll [.run])).TellsOf node :=
    .inl (List.contains_iff_mem.mp hlisted)
  refine ⟨engine, hengine, htells, ?_⟩
  rcases (reported_nodes_present hengine [.run]).1 node htells with
    hpresent | ⟨earlier, later, hcalls, _⟩
  · exact hpresent
  · -- Nothing has been asked for.
    have hasked : Call.resolve node ∈ [Call.run] := hcalls ▸ by simp
    simp at hasked

/-- A local value is also reported under a key that it has been asked for with. -/
theorem resolve_leaves_phantom :
    let x : Declaration := .localValue ⟨"x", .literal none (.ofNat 1), none⟩
    let node : NodeId := ⟨"local.x", some (.index 0)⟩
    ∃ engine, Engine.ofDeclarations Library.standard Settings.standard [x] [] = .ok engine
      ∧ (runFrom .initial (engine.resolve node)).1 = .ok (.ofNat 1)
      ∧ (engine.reportOf (engine.afterAll [.resolve node, .run])).TellsOf node
      ∧ ¬ engine.IsPresent (engine.afterAll [.resolve node, .run]) node := by
  intro x node
  let engine : Engine := ⟨⟨[⟨x, [], []⟩]⟩, Library.standard, Settings.standard, []⟩
  have hlisted : (Table.keys
      (engine.reportOf (engine.afterAll [.resolve node, .run])).values).contains node = true := by
    cbv
  have hexpansions : (engine.afterAll [.resolve node, .run]).expansions = [] := by
    cbv
  refine ⟨engine, by cbv, by cbv, .inl (List.contains_iff_mem.mp hlisted), ?_⟩
  rintro ⟨_, hkey | ⟨e, he, _⟩⟩
  · cases hkey
  · rw [hexpansions] at he
    cases he

end Engine

end Groundplan
