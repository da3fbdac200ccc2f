import Groundplan.Proofs.Engine.Application
import Groundplan.Proofs.Graph.Cycle
import Mathlib

/-!
# Every History Agrees with Evaluation from Scratch

From the beginning, an engine is asked to resolve nodes, to run, and to take attributes, in any
order.  After every such call its state is sound: it keeps the verdicts for the attributes that
have been supplied so far.  An engine that has been supplied with the same attributes, and with
nothing else, comes to the same verdicts.

## Main Definitions

- `Engine.Call`, `Engine.afterAll`: calls from outside, and the state that they leave
- `Engine.Invariant`: a state is sound for what has been supplied
- `Engine.Collects`: the value of a template is collected from those of its instances

## Main Statements

- `Engine.after_invariant`: what every call preserves
- `Engine.afterAll_invariant`: what holds after any calls
- `Engine.settled_eq_from_scratch`
-/

namespace Groundplan

namespace Engine

/-! ## Calls -/

/-- A call from outside. -/
inductive Call where
  | resolve (node : NodeId)
  | run
  | apply (node : NodeId) (attributes : Table String Plain)

/-- The state that a call leaves, whether it succeeds or not. -/
def after (engine : Engine) (s : State) : Call → State
  | .resolve node => (runFrom s (engine.resolve node)).2
  | .run => (runFrom s engine.run).2
  | .apply node attributes => (runFrom s (engine.apply node attributes)).2

/-- The state after calls from the beginning. -/
def afterAll (engine : Engine) (calls : List Call) : State :=
  calls.foldl engine.after .initial

theorem afterAll_append (engine : Engine) (calls : List Call) (c : Call) :
    engine.afterAll (calls ++ [c]) = engine.after (engine.afterAll calls) c :=
  List.foldl_append

/-! ## The invariant -/

/-- Nodes that may be settled whatever has been supplied, and still may when more is supplied. -/
structure Lasting (engine : Engine) (Admitted : Overlay → NodeId → Prop) : Prop where
  admits : ∀ overlay, Admits engine overlay (Admitted overlay)
  supply : ∀ overlay node supplied m, Admitted overlay m →
    ¬ Relation.TransGen engine.graph.Refers m.address node.address →
    Admitted (supply overlay node supplied) m

/-- A state is sound for what has been supplied. -/
structure Invariant (engine : Engine) (Admitted : Overlay → NodeId → Prop) (s : State) : Prop where
  distinct : Distinct s.applied
  sound : Sound engine s.applied (Admitted s.applied) s

/-- Nothing is wrong before anything has been settled. -/
theorem fresh_sound (engine : Engine) (overlay : Overlay) (Admitted : NodeId → Prop) :
    Sound engine overlay Admitted { State.initial with applied := overlay } := by
  refine ⟨rfl, ?_, ?_, ?_, ?_⟩
  · intro node outcome hsettled
    cases hsettled
  · intro node outcome hsettled
    cases hsettled
  · intro address e hexpansion
    cases hexpansion
  · intro address n r _ hvalue
    cases hvalue

section Histories

variable {engine : Engine} {Admitted : Overlay → NodeId → Prop} {s : State}

theorem initial_invariant : Invariant engine Admitted .initial :=
  ⟨fun _ => List.nodup_nil, fresh_sound engine [] (Admitted [])⟩

variable (hgraph : engine.graph.Acyclic) (hlasting : Lasting engine Admitted)

include hgraph hlasting

/-- Every call preserves the invariant. -/
theorem after_invariant (h : Invariant engine Admitted s) (c : Call)
    (hresolve : ∀ node, c = .resolve node → node.address ∈ engine.graph.addresses →
      ∀ overlay, Admitted overlay node) : Invariant engine Admitted (engine.after s c) := by
  obtain ⟨hdistinct, hsound⟩ := h
  have hadmits := hlasting.admits s.applied
  cases c with
  | resolve node =>
    have hafter := resolve_maintains hgraph hadmits
      (fun hhas => hresolve node rfl (Graph.has_iff_mem_addresses.mp hhas) s.applied) s hsound
    have happlied := hafter.applied
    refine ⟨?_, ?_⟩
    · rw [after, happlied]
      exact hdistinct
    · rw [after, happlied]
      exact hafter
  | run =>
    have hafter := run_maintains hgraph hadmits s hsound
    have happlied := hafter.applied
    refine ⟨?_, ?_⟩
    · rw [after, happlied]
      exact hdistinct
    · rw [after, happlied]
      exact hafter
  | apply node attributes =>
    obtain ⟨overlay, hdistinct', hafter⟩ := apply_sound hgraph hlasting.admits hsound hdistinct
      node attributes (hlasting.supply s.applied node)
    have happlied := hafter.applied
    refine ⟨?_, ?_⟩
    · rw [after, happlied]
      exact hdistinct'
    · rw [after, happlied]
      exact hafter

/-- The invariant holds after any calls. -/
theorem afterAll_invariant (calls : List Call)
    (hresolve : ∀ node, .resolve node ∈ calls → node.address ∈ engine.graph.addresses →
      ∀ overlay, Admitted overlay node) : Invariant engine Admitted (engine.afterAll calls) := by
  suffices hfrom : ∀ s, Invariant engine Admitted s →
      Invariant engine Admitted (calls.foldl engine.after s) from hfrom _ initial_invariant
  induction calls with
  | nil => exact fun s hs => hs
  | cons c calls ih =>
    intro s hs
    refine ih (fun node hnode => hresolve node (List.mem_cons_of_mem c hnode)) _ ?_
    refine after_invariant hgraph hlasting hs c fun node hnode => hresolve node ?_
    rw [hnode]
    exact List.mem_cons_self

end Histories

/-! ## Evaluation from scratch -/

/-- The nodes of declarations, among them keyed ones that do not exist. -/
theorem declared_lasting (engine : Engine) :
    Lasting engine fun _ node => node.address ∈ engine.graph.addresses := by
  refine ⟨fun overlay => ⟨fun _ h => h, fun _ h => h, ?_⟩, fun _ _ _ _ h _ => h⟩
  intro n r e hn _ _ key _
  exact Graph.has_iff_mem_addresses.mp (by rw [Graph.has, hn]; rfl)

/-- The value of a template is unknown while its instances are deferred, and otherwise collected
from theirs. -/
def Collects (s : State) (address : String) (v : Value) : Prop :=
  ∃ e, Table.get? s.expansions address = some e
    ∧ if e.isDeferred then v = .unknown else s.aggregate? e = some v

section Scratch

variable {engine : Engine} {overlay : Overlay} {Admitted : NodeId → Prop} {s : State}

theorem Sound.collects (hgraph : engine.graph.Acyclic) (hs : Sound engine overlay Admitted s)
    {address : String} {n : Graph.Node} {r : Resource} {v : Value}
    (htemplate : engine.IsTemplate (.ofAddress address) n r)
    (hv : s.value? (.ofAddress address) = some v) : Collects s address v := by
  obtain ⟨e, hcached, hvalues⟩ := hs.aggregated address n r htemplate (by rw [hv]; rfl)
  have hn : engine.graph.node? address = some n := htemplate.declared
  have he := hs.expansionOf_eq hn htemplate.resource hcached
  have haddress : e.address = address :=
    (keys_of_expansionOf htemplate.multiple he).1.trans
      (address_of_resource hn htemplate.resource).symm
  have hverdict := hs.verdict_of_value? hv
  rw [verdict_eq hgraph, conclude_eq_ok_iff] at hverdict
  obtain ⟨hmissing, hrequired⟩ := required_of_evaluationOf htemplate.declared hverdict
  rw [evaluationOf_eq htemplate.declared hmissing hrequired, declarationResult,
    htemplate.resource] at hverdict
  dsimp only at hverdict
  rw [htemplate.multiple] at hverdict
  change engine.templateResult (engine.verdict overlay) n r = .ok v at hverdict
  refine ⟨e, hcached, ?_⟩
  -- The verdict on the template is unknown or collected, by whether its instances are deferred.
  cases hdeferred : e.isDeferred with
  | true =>
    unfold templateResult at hverdict
    obtain ⟨e', he', hverdict⟩ := bind_eq_ok_iff.mp hverdict
    rw [he] at he'
    cases he'
    rw [hdeferred] at hverdict
    cases hverdict
    rfl
  | false =>
    rw [templateResult_eq he hdeferred] at hverdict
    obtain ⟨_, _, hverdict⟩ := bind_eq_ok_iff.mp hverdict
    cases hverdict
    have hinstances := hvalues hdeferred
    rw [← haddress] at hinstances
    have hsame : aggregateOf (fun m => (engine.verdict overlay m).toOption) e
        = aggregateOf s.value? e := by
      refine aggregateOf_congr fun key hkey => ?_
      obtain ⟨w, hw⟩ := Option.isSome_iff_exists.mp (hinstances key hkey)
      rw [hs.verdict_of_value? hw, hw]
      rfl
    obtain ⟨w, hw⟩ := Option.isSome_iff_exists.mp (isSome_aggregateOf hinstances)
    rw [hsame, hw]
    exact hw

/-- An engine that has been supplied with the same attributes comes to the same. -/
theorem Sound.resolve_from_scratch (hgraph : engine.graph.Acyclic)
    (hcheck : engine.graph.checkAcyclic = .ok ())
    (hs : Sound engine overlay (fun m => m.address ∈ engine.graph.addresses) s) {node : NodeId}
    {outcome : Settled} (hsettled : Table.get? s.settled node = some outcome) :
    ∃ s', runFrom { State.initial with applied := overlay } (engine.resolve node)
        = (outcome.result, s')
      ∧ Table.get? s'.settled node = some outcome := by
  have hadmitted := hs.admitted node outcome hsettled
  -- Neither of the checks from outside stops the resolution.
  have hdeclared : engine.checkNode node = .ok () := by
    rw [checkNode, Graph.has_iff_mem_addresses.mpr hadmitted]
    rfl
  obtain ⟨s', hrun, _, _, hkept⟩ := resolveNode_resolves hgraph
    (((declared_lasting engine).admits overlay).closed hgraph) (fresh_sound engine overlay _)
    hadmitted
  have hresult := hs.settled node outcome hsettled
  refine ⟨s', ?_, hkept outcome hresult⟩
  unfold resolve
  rw [runFrom_ofOutcome_bind, hdeclared]
  dsimp only
  rw [runFrom_ofOutcome_bind, hcheck]
  dsimp only
  rw [hrun, hresult]

/-- The graph of an engine has no cycle if the check for cycles finds none. -/
theorem acyclic_of_ofDeclarations {library : Library} {settings : Settings}
    {declarations : List Declaration} {inputs : Table String Plain}
    (hengine : Engine.ofDeclarations library settings declarations inputs = .ok engine)
    (hcheck : engine.graph.checkAcyclic = .ok ()) : engine.graph.Acyclic := by
  obtain ⟨graph, hdeclared, hengine⟩ := bind_eq_ok_iff.mp hengine
  obtain ⟨_, _, hengine⟩ := bind_eq_ok_iff.mp hengine
  cases hengine
  exact Graph.acyclic_of_checkAcyclic hdeclared hcheck

/-- The nodes of an engine belong to the declarations that it is made of. -/
theorem declared_of_ofDeclarations {library : Library} {settings : Settings}
    {declarations : List Declaration} {inputs : Table String Plain}
    (hengine : Engine.ofDeclarations library settings declarations inputs = .ok engine) :
    engine.library = library ∧ ∀ n ∈ engine.graph.nodes, n.declaration ∈ declarations := by
  obtain ⟨graph, hdeclared, hengine⟩ := bind_eq_ok_iff.mp hengine
  obtain ⟨_, _, hengine⟩ := bind_eq_ok_iff.mp hengine
  cases hengine
  refine ⟨rfl, fun n hn => ?_⟩
  rw [(Graph.of_ofDeclarations hdeclared).2.1] at hn
  obtain ⟨d, hd, rfl⟩ := List.mem_map.mp hn
  exact hd

end Scratch

/-! ## Main statement -/

/-- **Incremental evaluation is evaluation from scratch.**  Let an engine be asked to resolve, to
run and to take attributes in any order.  What has become of a node then is what becomes of it
when nothing has happened but that the same attributes have been supplied: the same value, or the
same failure with its error and its chain.  The value of a template is collected from those that
its instances have now. -/
theorem settled_eq_from_scratch {library : Library} {settings : Settings}
    {declarations : List Declaration} {inputs : Table String Plain} {engine : Engine}
    (hengine : Engine.ofDeclarations library settings declarations inputs = .ok engine)
    (hcheck : engine.graph.checkAcyclic = .ok ()) (calls : List Call) :
    let s := engine.afterAll calls
    (∀ node outcome, Table.get? s.settled node = some outcome →
        ∃ s', runFrom { State.initial with applied := s.applied } (engine.resolve node)
            = (outcome.result, s')
          ∧ Table.get? s'.settled node = some outcome)
      ∧ ∀ address n r v, engine.IsTemplate (.ofAddress address) n r →
          s.value? (.ofAddress address) = some v → Collects s address v := by
  have hgraph := acyclic_of_ofDeclarations hengine hcheck
  have hs := (afterAll_invariant hgraph (declared_lasting engine) calls
    fun node _ hdeclared _ => hdeclared).sound
  refine ⟨fun node outcome hsettled => ?_, fun address n r v htemplate hv => ?_⟩
  · exact hs.resolve_from_scratch hgraph hcheck hsettled
  · exact hs.collects hgraph htemplate hv

/-- Two disks, of which the first one gets an identity after a run. -/
theorem settled_eq_from_scratch_disks :
    let disks : Declaration := .resource ⟨"disk", "data", [("size", .literal none (.ofNat 1))],
      some (.literal none (.ofNat 2)), [], Lifecycle.none, ["id"], none⟩
    let first : Declaration := .localValue ⟨"first",
      .access none (.index none (.ref none ⟨.resource, "disk.data"⟩) (.literal none (.ofNat 0)))
        "id", none⟩
    let calls : List Call :=
      [.run, .apply ⟨"disk.data", some (.index 0)⟩ [("id", .text "a")]]
    ∃ engine, Engine.ofDeclarations Library.standard Settings.standard [disks, first] []
        = .ok engine
      ∧ engine.graph.checkAcyclic = .ok ()
      ∧ Table.get? (engine.afterAll calls).settled (.ofAddress "local.first")
        = some (.value (.string "a"))
      ∧ ∃ s', runFrom { State.initial with applied := (engine.afterAll calls).applied }
            (engine.resolve (.ofAddress "local.first")) = (.ok (.string "a"), s')
          ∧ Table.get? s'.settled (.ofAddress "local.first") = some (.value (.string "a")) := by
  intro disks first calls
  let engine : Engine := ⟨⟨[⟨disks, [], []⟩, ⟨first, ["disk.data"], []⟩]⟩, Library.standard,
    Settings.standard, []⟩
  have hengine : Engine.ofDeclarations Library.standard Settings.standard [disks, first] []
      = .ok engine := by
    cbv
  have hcheck : engine.graph.checkAcyclic = .ok () := by
    cbv
  have hsettled : Table.get? (engine.afterAll calls).settled (.ofAddress "local.first")
      = some (.value (.string "a")) := by
    cbv
  refine ⟨engine, hengine, hcheck, hsettled, ?_⟩
  exact (settled_eq_from_scratch hengine hcheck calls).1 _ _ hsettled

end Engine

end Groundplan
