import Groundplan.Proofs.Engine.Reporting
import Groundplan.Proofs.Engine.Tracking

/-!
# Reported Instances

A report lists the instances of resources that have values, each one with its arguments.  The
arguments that a state keeps are those that the verdicts give, and every instance with a value has
some.  So what a report tells of an instance is told by the verdicts.

## Main Definitions

- `Engine.argumentsOf`: the arguments of an instance, given the results of other nodes
- `Engine.Argues`: an evaluation comes to these arguments
- `Engine.Argued`: a state keeps the arguments of instances

## Main Statements

- `Engine.resolveNode_argued`: resolutions keep the arguments of instances
- `Engine.afterAll_argued`: what holds after any calls
- `Engine.Argued.mem_reported_resources_iff`: which instances a report lists
-/

namespace Groundplan

namespace Engine

variable {engine : Engine} {overlay : Overlay} {Admitted : NodeId → Prop} {s s' : State}
  {node : NodeId}

/-! ## Arguments -/

/-- The arguments of an instance, given the results of others. -/
def argumentsOf (engine : Engine) (results : NodeId → Except Stop Value) (n : Graph.Node)
    (r : Resource) (node : NodeId) : Outcome (Table String Value) := do
  let e ← engine.expansionOf results n r
  argumentValues engine.library ((scopeOf results n.dependencies).child (e.bindingsFor node.key))
    r.arguments

/-- The evaluation of an instance comes as far as its arguments. -/
structure Argues (engine : Engine) (overlay : Overlay) (node : NodeId)
    (arguments : Table String Value) (n : Graph.Node) (r : Resource) (e : Expansion) : Prop where
  single : engine.IsSingle node n r
  complete : n.missing = []
  required : requireAll (engine.verdict overlay) (n.dependencies.map .ofAddress) = .ok ()
  expansion : engine.expansionOf (engine.verdict overlay) n r = .ok e
  expanded : e.isDeferred = false
  member : node.key ∈ e.keys
  values : argumentValues engine.library
    ((scopeOf (engine.verdict overlay) n.dependencies).child (e.bindingsFor node.key)) r.arguments
      = .ok arguments

namespace Argues

variable {arguments arguments' : Table String Value} {n n' : Graph.Node} {r r' : Resource}
  {e e' : Expansion}

theorem argumentsOf_eq (h : engine.Argues overlay node arguments n r e) :
    engine.argumentsOf (engine.verdict overlay) n r node = .ok arguments := by
  unfold argumentsOf
  rw [h.expansion]
  exact h.values

/-- An instance that has arguments has a value. -/
theorem exists_verdict (hgraph : engine.graph.Acyclic)
    (h : engine.Argues overlay node arguments n r e) :
    ∃ v, engine.verdict overlay node = .ok v := by
  refine ⟨.object (attributes arguments r.computed ((Table.get? overlay node).getD [])), ?_⟩
  rw [verdict_eq hgraph, conclude_eq_ok_iff,
    evaluationOf_eq h.single.declared h.complete h.required, declarationResult, h.single.resource]
  dsimp only
  rw [h.single.single]
  refine bind_eq_ok_iff.mpr ⟨e, ofFault_eq_ok_iff.mpr h.expansion, ?_⟩
  exact instanceResult_eq_ok_iff.mpr ⟨h.expanded, h.member, arguments, h.values, rfl⟩

/-- The arguments of an instance are known from its dependencies. -/
theorem unique (h : engine.Argues overlay node arguments n r e)
    (h' : engine.Argues overlay node arguments' n' r' e') : arguments = arguments' := by
  cases h.single.declared.symm.trans h'.single.declared
  cases h.single.resource.symm.trans h'.single.resource
  cases h.argumentsOf_eq.symm.trans h'.argumentsOf_eq
  rfl

/-- The arguments of an instance stay when something is supplied that it does not depend on. -/
theorem supply (h : engine.Argues overlay node arguments n r e) (m : NodeId)
    (supplied : Table String Value)
    (hunrelated : ¬ Relation.TransGen engine.graph.Refers node.address m.address) :
    engine.Argues (supply overlay m supplied) node arguments n r e := by
  have hsame : ∀ d ∈ n.dependencies, engine.verdict overlay (.ofAddress d)
      = engine.verdict (Engine.supply overlay m supplied) (.ofAddress d) :=
    fun d hd => Supplied.verdict_dependency supplied hunrelated
      (Graph.refers_iff.mpr ⟨n, h.single.declared, hd⟩)
  refine ⟨h.single, h.complete, ?_, ?_, h.expanded, h.member, ?_⟩
  · rw [← h.required]
    refine requireAll_congr fun x hx => ?_
    obtain ⟨d, hd, rfl⟩ := List.mem_map.mp hx
    exact (hsame d hd).symm
  · exact (expansionOf_congr hsame).symm.trans h.expansion
  · rw [← scopeOf_congr hsame]
    exact h.values

end Argues

/-- A state keeps the arguments of instances: only those that their evaluations come to, and some
for every instance with a value. -/
structure Argued (engine : Engine) (overlay : Overlay) (s : State) : Prop where
  right : ∀ node arguments, Table.get? s.arguments node = some arguments →
    ∃ n r e, engine.Argues overlay node arguments n r e
  given : ∀ node n r, engine.IsSingle node n r → (s.value? node).isSome = true →
    (Table.get? s.arguments node).isSome = true
  distinct : (Table.keys s.arguments).Nodup

theorem initial_argued (engine : Engine) (overlay : Overlay) : Argued engine overlay .initial :=
  ⟨fun _ _ h => (by cases h), fun _ _ _ _ h => (by cases h), List.nodup_nil⟩

namespace Argued

theorem of_eq (h : Argued engine overlay s) (hsettled : s'.settled = s.settled)
    (harguments : s'.arguments = s.arguments) : Argued engine overlay s' := by
  have hvalue : s'.value? = s.value? := by
    funext m
    unfold State.value?
    rw [hsettled]
  refine ⟨?_, ?_, ?_⟩
  · rw [harguments]
    exact h.right
  · rw [harguments, hvalue]
    exact h.given
  · rw [harguments]
    exact h.distinct

/-- The arguments that an evaluation comes to may be kept. -/
theorem put (h : Argued engine overlay s) {n : Graph.Node} {r : Resource} {e : Expansion}
    {arguments : Table String Value} (hargues : engine.Argues overlay node arguments n r e) :
    Argued engine overlay { s with arguments := Table.put s.arguments node arguments } := by
  refine ⟨fun m arguments' hm => ?_, fun m n' r' hm hvalue => ?_,
    Table.nodup_keys_put s.arguments node arguments h.distinct⟩
  · dsimp only at hm
    rw [Table.get?_put] at hm
    split at hm
    · rename_i hnode
      cases hm
      exact hnode ▸ ⟨n, r, e, hargues⟩
    · exact h.right m arguments' hm
  · dsimp only
    rw [Table.get?_put]
    split
    · rfl
    · exact h.given m n' r' hm hvalue

/-- A node may be settled, an instance with a value only if it has arguments. -/
theorem settle (h : Argued engine overlay s) {outcome : Settled}
    (hgiven : ∀ v, outcome = .value v → ∀ n r, engine.IsSingle node n r →
      (Table.get? s.arguments node).isSome = true) :
    Argued engine overlay (s.settle node outcome) := by
  refine ⟨h.right, fun m n r hm hvalue => ?_, h.distinct⟩
  by_cases hnode : node = m
  · subst hnode
    cases outcome with
    | value v => exact hgiven v rfl n r hm
    | failure f =>
      rw [State.value?_settle_failure] at hvalue
      cases hvalue
  · rw [State.value?_settle _ _ hnode] at hvalue
    exact h.given m n r hm hvalue

end Argued

/-! ## Resolutions -/

/-- The evaluation of an instance keeps the arguments that the verdicts give. -/
theorem evaluateInstance_argued (hgraph : engine.graph.Acyclic)
    (hs : Sound engine overlay Admitted s) {n : Graph.Node} {r : Resource}
    (hsingle : engine.IsSingle node n r) (hmissing : n.missing = [])
    (hvalued : Valued engine overlay s (n.dependencies.map .ofAddress))
    (h : Argued engine overlay s) :
    Argued engine overlay (runFrom s (engine.evaluateInstance r node)).2 := by
  have hr := hsingle.resource
  have hn := hsingle.declared
  rw [address_of_resource hn hr] at hn
  obtain ⟨s', hrun, _, hextends, _⟩ := expansionFor_yields hgraph hs hn hr hmissing hvalued
  have h' : Argued engine overlay s' := by
    have haside : Preserves (fun t => t.settled = s.settled ∧ t.arguments = s.arguments)
        (engine.expansionFor r) := expansionFor_preserves fun _ _ h => h
    have hafter := haside s ⟨rfl, rfl⟩
    rw [hrun] at hafter
    exact h.of_eq hafter.1 hafter.2
  unfold evaluateInstance
  rw [runFrom_bind, hrun]
  cases hexpansion : engine.expansionOf (engine.verdict overlay) n r with
  | error fault => exact h'
  | ok e =>
    show Argued engine overlay (runFrom s' (if _ then _ else _)).2
    split
    · exact h'
    · rename_i hexists
      obtain ⟨hexpanded, hmember⟩ : e.isDeferred = false ∧ node.key ∈ e.keys := by
        simpa using hexists
      have hvalues := argumentValues_eq hgraph hn hmissing
        (rootScope_showAlike (hvalued.mono hextends)) hr (e.bindingsFor node.key)
      rw [runFrom_get_bind, runFrom_bind]
      dsimp only
      rw [hvalues]
      cases harguments : argumentValues engine.library
          ((scopeOf (engine.verdict overlay) n.dependencies).child (e.bindingsFor node.key))
          r.arguments with
      | error fault => exact h'
      | ok arguments =>
        exact h'.put ⟨hsingle, hmissing, hvalued.required, hexpansion, hexpanded, hmember,
          harguments⟩

/-- The evaluation of an instance ends with a value only if it has kept some arguments. -/
theorem arguments_of_evaluateInstance {r : Resource} {v : Value}
    (hrun : runFrom s (engine.evaluateInstance r node) = (.ok v, s')) :
    (Table.get? s'.arguments node).isSome = true := by
  unfold evaluateInstance at hrun
  rw [runFrom_bind] at hrun
  generalize runFrom s (engine.expansionFor r) = first at hrun
  obtain ⟨_ | e, t⟩ := first
  · cases hrun
  · change runFrom t (if _ then _ else _) = _ at hrun
    split at hrun
    · cases hrun
    · rw [runFrom_get_bind, runFrom_ofOutcome_bind] at hrun
      split at hrun
      · rw [runFrom_modify_bind] at hrun
        cases hrun
        dsimp only
        rw [Table.get?_put_self]
        rfl
      · cases hrun

theorem arguments_of_evaluateNode {resolve : NodeId → Pass Value} {v : Value} {n : Graph.Node}
    {r : Resource} (hsingle : engine.IsSingle node n r)
    (hrun : runFrom s (engine.evaluateNode resolve node) = (.ok v, s')) :
    (Table.get? s'.arguments node).isSome = true := by
  unfold evaluateNode at hrun
  rw [hsingle.declared] at hrun
  dsimp only at hrun
  split at hrun
  · cases hrun
  · rw [runFrom_bind] at hrun
    generalize runFrom s (resolveAll resolve (n.dependencies.map .ofAddress)) = first at hrun
    obtain ⟨_ | _, t⟩ := first
    · cases hrun
    · dsimp only at hrun
      rw [runFrom_get_bind, hsingle.resource] at hrun
      dsimp only at hrun
      rw [hsingle.single] at hrun
      exact arguments_of_evaluateInstance hrun

/-- All changes of a resolution keep the arguments of instances. -/
theorem argued_tracks (hgraph : engine.graph.Acyclic) :
    Tracks engine overlay Admitted
      (fun s s' => Argued engine overlay s → Argued engine overlay s') fun _ _ => True where
  refl _ h := h
  trans h h' := h' ∘ h
  fit _ _ := trivial
  expand _ _ h := h.of_eq rfl rfl
  defer _ _ h := h.of_eq rfl rfl
  single hs hsingle hmissing hvalued := evaluateInstance_argued hgraph hs hsingle hmissing hvalued
  below _ _ _ := trivial
  settling := by
    intro s node fuel _ _ _ _ htracks h
    rw [runFrom_settling]
    have hcounted := htracks (h.of_eq rfl rfl)
    generalize hrun : runFrom (s.count node)
      (engine.evaluateNode (engine.resolveWithin fuel) node) = evaluated at hcounted
    obtain ⟨(f | ⟨e | d⟩) | v, s'⟩ := evaluated
    · exact hcounted.settle fun _ => nofun
    · exact hcounted.settle fun _ => nofun
    · exact hcounted
    · exact hcounted.settle fun _ _ _ _ hsingle => arguments_of_evaluateNode hsingle hrun

/-- Resolutions keep the arguments of instances. -/
theorem resolveNode_argued (hgraph : engine.graph.Acyclic)
    (hclosed : Closed engine overlay Admitted) (hadmitted : Admitted node) :
    Preserves (fun s => Orderly engine overlay Admitted s ∧ Argued engine overlay s)
      (engine.resolveNode node) :=
  fun s hs => ⟨resolveNode_orderly hgraph hclosed hadmitted s hs.1,
    (argued_tracks hgraph).resolveNode hgraph hclosed hs.1.sound hadmitted trivial hs.2⟩

/-! ## Calls -/

section Merging

variable {value : Value} {supplied : Table String Value}

theorem nodup_arguments_forgetAll {affected : List String} (h : (Table.keys s.arguments).Nodup) :
    (Table.keys (affected.foldl State.forget s).arguments).Nodup := by
  induction affected generalizing s with
  | nil => exact h
  | cons first affected ih => exact ih (h.sublist (List.filter_sublist.map Prod.fst))

/-- The arguments of what depends on the declaration are forgotten, and all others are kept. -/
theorem get?_arguments_merged_eq_some_iff (hgraph : engine.graph.Acyclic) {m : NodeId}
    {arguments : Table String Value} :
    Table.get? (engine.merged s node value supplied).arguments m = some arguments
      ↔ ¬ Relation.TransGen engine.graph.Refers m.address node.address
        ∧ Table.get? s.arguments m = some arguments := by
  rw [← Graph.mem_dependentsClosure_iff hgraph.distinct]
  unfold merged
  dsimp only
  rw [get?_arguments_forgetAll, merge_arguments]
  split
  · rename_i haffected
    simp [haffected]
  · rename_i hkept
    simp [hkept]

/-- Merging settles no instance but the node, and forgets the arguments of those that are
forgotten. -/
theorem merged_argued (hgraph : engine.graph.Acyclic) (hs : Sound engine overlay Admitted s)
    (h : Argued engine overlay s) (hcheck : engine.checkApplicable node = .ok ())
    (hvalue : s.value? node = some value) :
    Argued engine (supply overlay node supplied) (engine.merged s node value supplied) := by
  have hdistinct : (Table.keys (merge s node value supplied).arguments).Nodup := by
    rw [merge_arguments]
    exact h.distinct
  refine ⟨fun m arguments hm => ?_, fun m n r hsingle hm => ?_,
    nodup_arguments_forgetAll hdistinct⟩
  · obtain ⟨hunrelated, hm⟩ := (get?_arguments_merged_eq_some_iff hgraph).mp hm
    obtain ⟨n, r, e, hargues⟩ := h.right m arguments hm
    exact ⟨n, r, e, hargues.supply node supplied hunrelated⟩
  · obtain ⟨v, hv⟩ := Option.isSome_iff_exists.mp hm
    obtain ⟨hunrelated, _⟩ :=
      (isSettled_merged_iff hgraph hvalue m).mp (State.isSettled_of_value? hv)
    have hearlier : (s.value? m).isSome = true := by
      by_cases hnode : m = node
      · rw [hnode, hvalue]
        rfl
      have htemplate : m ≠ .ofAddress node.address := by
        rintro rfl
        -- The node would be an instance of a template.
        obtain ⟨n', r', hn', hr', hone⟩ := resource_of_checkApplicable hcheck
        have hsupplied : engine.Supplied overlay node value n' r' :=
          ⟨hn', hr', hone, hs.verdict_of_value? hvalue⟩
        have hmultiple := hsupplied.multiple hgraph (isSome_key_iff.mpr hnode)
        cases hsingle.declared.symm.trans hn'
        cases hsingle.resource.symm.trans hr'
        have hwhole := hsingle.single
        rw [hmultiple] at hwhole
        cases hwhole
      rw [value?_eq_some_iff] at hv
      unfold merged at hv
      dsimp only at hv
      rw [get?_settled_forgetAll] at hv
      split at hv
      · cases hv
      · rw [get?_merge_other hnode htemplate] at hv
        rw [value?_eq_some_iff.mpr hv]
        rfl
    obtain ⟨arguments, harguments⟩ := Option.isSome_iff_exists.mp (h.given m n r hsingle hearlier)
    rw [(get?_arguments_merged_eq_some_iff hgraph).mpr ⟨hunrelated, harguments⟩]
    rfl

end Merging

/-- Every call keeps the arguments of instances. -/
theorem after_argued (hgraph : engine.graph.Acyclic) (hs : Kept engine s)
    (h : Argued engine s.applied s) (c : Call) :
    Argued engine (engine.after s c).applied (engine.after s c) := by
  have hresolve : ∀ overlay m, engine.Declared m →
      Preserves (fun t => Orderly engine overlay engine.Declared t ∧ Argued engine overlay t)
        (engine.resolveNode m) :=
    fun overlay m => resolveNode_argued hgraph (declared_closed hgraph overlay)
  have hreport : ∀ overlay t nodes,
      Orderly engine overlay engine.Declared t ∧ Argued engine overlay t →
      Orderly engine overlay engine.Declared (t.report nodes)
        ∧ Argued engine overlay (t.report nodes) :=
    fun overlay t nodes ht => ⟨ht.1.report nodes, ht.2.of_eq rfl rfl⟩
  have hsame : ∀ {overlay : Overlay} {t : State},
      Orderly engine overlay engine.Declared t ∧ Argued engine overlay t →
      Argued engine t.applied t := by
    rintro overlay t ⟨ht, hargued⟩
    rwa [ht.sound.applied]
  cases c with
  | resolve m =>
    exact hsame (resolve_preserves
      (fun hhas => hresolve _ m (Graph.has_iff_mem_addresses.mp hhas)) s ⟨hs.orderly, h⟩)
  | run =>
    exact hsame (run_preserves (fun a ha => hresolve _ (.ofAddress a) ha) (hreport _) s
      ⟨hs.orderly, h⟩)
  | apply m attributes =>
    rcases apply_cases engine s m attributes with
      ⟨fault, hrun⟩ | ⟨supplied, value, hcheck, _, hvalue, hrun⟩
    · rw [after, hrun]
      exact h
    · rw [after, hrun]
      exact hsame (resumption_preserves (fun a ha => hresolve _ (.ofAddress a) ha) (hreport _)
        m.address _ ⟨merged_orderly hgraph hs.orderly hs.distinct hcheck hvalue fun _ hm _ => hm,
          merged_argued hgraph hs.orderly.sound h hcheck hvalue⟩)

/-- States keep the arguments of instances after any calls. -/
theorem afterAll_argued (hgraph : engine.graph.Acyclic) (calls : List Call) :
    Argued engine (engine.afterAll calls).applied (engine.afterAll calls) := by
  induction calls using List.reverseRecOn with
  | nil => exact initial_argued engine []
  | append_singleton calls c ih =>
    rw [afterAll_append]
    exact after_argued hgraph (afterAll_kept hgraph calls) ih c

/-! ## Reports -/

/-- The instances that a report lists are those with a value, each with its arguments. -/
theorem Argued.mem_reported_resources_iff (h : Argued engine overlay s) (i : ResourceInstance) :
    i ∈ (engine.reportOf s).resources
      ↔ (s.value? i.node).isSome = true ∧ Table.get? s.arguments i.node = some i.arguments
        ∧ ∃ r, engine.graph.declaration? i.node.address = some (.resource r)
          ∧ i.type = r.type ∧ i.lifecycle = r.lifecycle := by
  show i ∈ (Sorting.sortBy _ s.arguments).filterMap (fun entry =>
    engine.resourceInstance? s entry.1 entry.2) ↔ _
  rw [List.mem_filterMap]
  constructor
  · rintro ⟨⟨node, arguments⟩, hmem, hi⟩
    have harguments := (Table.mem_iff_get?_eq_some h.distinct).mp (Sorting.mem_sortBy.mp hmem)
    unfold resourceInstance? at hi
    dsimp only at hi
    split at hi
    · rename_i v r hv hr
      cases hi
      exact ⟨by rw [hv]; rfl, harguments, r, hr, rfl, rfl⟩
    · cases hi
  · rintro ⟨hvalue, harguments, r, hr, htype, hlifecycle⟩
    obtain ⟨v, hv⟩ := Option.isSome_iff_exists.mp hvalue
    refine ⟨(i.node, i.arguments),
      Sorting.mem_sortBy.mpr ((Table.mem_iff_get?_eq_some h.distinct).mpr harguments), ?_⟩
    obtain ⟨_, _, _, _⟩ := i
    dsimp only at htype hlifecycle hv hr
    subst htype hlifecycle
    unfold resourceInstance?
    dsimp only
    rw [hv, hr]

/-- The instances in a report are sorted by their nodes, and each one is listed once. -/
theorem Argued.reported_resources_sorted (h : Argued engine overlay s) :
    (engine.reportOf s).resources.Pairwise (fun i j => nodeAtMost engine.graph i.node j.node = true)
      ∧ ((engine.reportOf s).resources.map ResourceInstance.node).Nodup := by
  have hnode : ∀ (entry : NodeId × Table String Value) i,
      engine.resourceInstance? s entry.1 entry.2 = some i → i.node = entry.1 := by
    intro entry i hi
    unfold resourceInstance? at hi
    split at hi
    · cases hi
      rfl
    · cases hi
  have hsorted : (Sorting.sortBy (fun a b => nodeAtMost engine.graph a.1 b.1) s.arguments).Pairwise
      fun a b => nodeAtMost engine.graph a.1 b.1 = true :=
    Sorting.sortBy_sorted (fun a b => nodeAtMost_total _ a.1 b.1)
      (fun a b c => nodeAtMost_trans _ a.1 b.1 c.1) s.arguments
  have hdistinct : ((Sorting.sortBy (fun a b => nodeAtMost engine.graph a.1 b.1)
      s.arguments).map Prod.fst).Nodup :=
    ((Sorting.sortBy_perm _ _).map Prod.fst).nodup_iff.mpr h.distinct
  constructor
  · exact List.pairwise_filterMap.mpr (hsorted.imp fun {a b} hab i hi j hj => by
      rw [hnode a i hi, hnode b j hj]
      exact hab)
  · rw [List.Nodup, List.pairwise_map] at hdistinct ⊢
    exact List.pairwise_filterMap.mpr (hdistinct.imp fun {a b} hab i hi j hj => by
      rw [hnode a i hi, hnode b j hj]
      exact hab)

end Engine

end Groundplan
