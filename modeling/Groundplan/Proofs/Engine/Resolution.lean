import Groundplan.Proofs.Engine.Sound
import Groundplan.Proofs.ScopeAgreement

/-!
# Resolution Computes Verdicts

Resolving a node from a sound state comes to its verdict, whatever has been settled before: what
the state keeps is what the evaluation would find again.  The proof is by induction on the fuel.
A node is ready for some fuel if it has been settled, if its rank lies below the fuel, or if it
is an instance whose dependencies have been settled; the last case is that of the instances of a
template, which has the same rank as they have.

## Main Definitions

- `Engine.Ready`: fuel is enough for a node

## Main Statements

- `Engine.rootScope_showAlike`: settled dependencies are seen as by the verdicts
- `Engine.resolveNode_resolves`
-/

namespace Groundplan

namespace Engine

variable {engine : Engine} {overlay : Overlay} {Admitted : NodeId → Prop} {s : State}

/-! ## Scopes -/

/-- The nodes have values, and these are the verdicts. -/
def Valued (engine : Engine) (overlay : Overlay) (s : State) (nodes : List NodeId) : Prop :=
  ∀ m ∈ nodes, ∃ v, engine.verdict overlay m = .ok v ∧ s.value? m = some v

theorem Valued.mono {s' : State} {nodes : List NodeId} (h : Valued engine overlay s nodes)
    (hextends : Extends s s') : Valued engine overlay s' nodes := by
  intro m hm
  obtain ⟨v, hverdict, hv⟩ := h m hm
  exact ⟨v, hverdict, hextends.value? hv⟩

/-- Nodes that have values meet what is required of them. -/
theorem Valued.required {nodes : List NodeId} (h : Valued engine overlay s nodes) :
    requireAll (engine.verdict overlay) nodes = .ok () := by
  refine requireAll_eq_ok_iff.mpr fun m hm => ?_
  obtain ⟨v, hverdict, _⟩ := h m hm
  exact ⟨v, hverdict⟩

/-- Two scopes show the same of some declarations, and of everything that is none. -/
def ShowAlike (dependencies : List String) (scope scope' : Scope) : Prop :=
  ∀ path : SymbolPath, (path.kind.isReferenceable = true → path.address ∈ dependencies) →
    ∀ span, scope.lookup path span = scope'.lookup path span

/-- Settled dependencies are seen as by the verdicts. -/
theorem rootScope_showAlike {dependencies : List String}
    (h : Valued engine overlay s (dependencies.map .ofAddress)) :
    ShowAlike dependencies (rootScope s) (scopeOf (engine.verdict overlay) dependencies) := by
  intro path hpath span
  have hroot : rootScope s = scopeSeeing fun path =>
      if path.kind.isReferenceable then s.value? (.ofAddress path.address) else none := rfl
  rw [hroot, scopeOf, lookup_scopeSeeing, lookup_scopeSeeing]
  cases hkind : path.kind.isReferenceable with
  | false => rfl
  | true =>
    have hmem := hpath hkind
    obtain ⟨v, hverdict, hv⟩ := h (.ofAddress path.address) (List.mem_map_of_mem hmem)
    rw [if_pos rfl, hv, List.contains_iff_mem.mpr hmem, hverdict]
    rfl

/-- What a declaration refers to is among its dependencies if nothing is missing. -/
theorem mem_dependencies_of_mem_references (hgraph : engine.graph.Acyclic) {address : String}
    {n : Graph.Node} (hn : engine.graph.node? address = some n) (hmissing : n.missing = [])
    {path : SymbolPath} (hmem : path ∈ n.declaration.references) :
    path.address ∈ n.dependencies := by
  have hedges := hgraph.edges n (Graph.mem_of_node? hn).1
  have hmissing' : (Graph.Node.among engine.graph.addresses n.declaration).missing = [] := by
    rw [← hedges]
    exact hmissing
  have hdeclared : path.address ∈ engine.graph.addresses := by
    by_contra hundeclared
    have hfiltered : path ∈ (Graph.Node.among engine.graph.addresses n.declaration).missing :=
      List.mem_filter.mpr ⟨hmem, by simpa using hundeclared⟩
    rw [hmissing'] at hfiltered
    exact List.not_mem_nil hfiltered
  rw [hedges]
  exact List.mem_filter.mpr
    ⟨hdeclared, List.contains_iff_mem.mpr (List.mem_map_of_mem hmem)⟩

/-- What the expressions of a declaration mention is among its dependencies, except for an input
variable itself. -/
theorem mem_dependencies_of_references (hgraph : engine.graph.Acyclic) {address : String}
    {n : Graph.Node} (hn : engine.graph.node? address = some n) (hmissing : n.missing = [])
    {role : String} {e : Expr} (he : (role, e) ∈ n.declaration.expressions) {path : SymbolPath}
    (hpath : path ∈ e.references) (hkind : path.kind.isReferenceable = true)
    (hown : n.declaration.isOwn path = false) : path.address ∈ n.dependencies := by
  apply mem_dependencies_of_mem_references hgraph hn hmissing
  unfold Declaration.references
  rw [Sorting.mem_sortBy, List.mem_eraseDups, List.mem_filter]
  refine ⟨List.mem_append_left _ (List.mem_flatMap.mpr ⟨(role, e), he, ?_⟩), by simp [hown]⟩
  exact List.mem_filter.mpr ⟨hpath, hkind⟩

theorem checkValidations_congr {library : Library} {v : InputVariable} {scope scope' : Scope}
    {rules : List Validation}
    (h : ∀ rule ∈ rules, rule.condition.evaluate library scope
      = rule.condition.evaluate library scope') :
    checkValidations library v scope rules = checkValidations library v scope' rules := by
  induction rules with
  | nil => rfl
  | cons rule rules ih =>
    simp only [checkValidations]
    rw [h rule (by simp), ih fun r hr => h r (List.mem_cons_of_mem rule hr)]

/-- The conditions of an input variable see the variable itself in a frame of their own. -/
theorem inputValue_congr {v : InputVariable} {scope scope' : Scope}
    (h : ∀ rule ∈ v.validations, ∀ path ∈ rule.condition.references,
      path ≠ (Declaration.input v).symbol →
      ∀ span, scope.lookup path span = scope'.lookup path span) :
    engine.inputValue v scope = engine.inputValue v scope' := by
  have hchecks : ∀ value : Value,
      checkValidations engine.library v (scope.child [((Declaration.input v).symbol, value)])
          v.validations
        = checkValidations engine.library v (scope'.child [((Declaration.input v).symbol, value)])
            v.validations := by
    intro value
    refine checkValidations_congr fun rule hrule => Expr.evaluate_congr _ _ ?_
    intro path hpath span
    by_cases hown : path = (Declaration.input v).symbol
    · subst hown
      have hbound : Table.get? (Table.ofList [((Declaration.input v).symbol, value)])
          (Declaration.input v).symbol = some value := by
        simp [Table.ofList, Table.putAll, Table.put, Table.get?]
      rw [Scope.lookup_child_of_bound _ span hbound, Scope.lookup_child_of_bound _ span hbound]
    · have hunbound : Table.get? (Table.ofList [((Declaration.input v).symbol, value)]) path
          = none := by
        simp [Table.ofList, Table.putAll, Table.put, Table.get?, Ne.symm hown]
      rw [Scope.lookup_child_of_unbound _ span hunbound,
        Scope.lookup_child_of_unbound _ span hunbound]
      exact h rule hrule path hpath hown span
  unfold inputValue
  simp only [hchecks]

theorem argumentValues_congr {library : Library} {scope scope' : Scope}
    {arguments : List (String × Expr)}
    (h : ∀ argument ∈ arguments, argument.2.evaluate library scope
      = argument.2.evaluate library scope') :
    argumentValues library scope arguments = argumentValues library scope' arguments := by
  induction arguments with
  | nil => rfl
  | cons argument arguments ih =>
    obtain ⟨name, e⟩ := argument
    have he : e.evaluate library scope = e.evaluate library scope' := h (name, e) (by simp)
    simp only [argumentValues]
    rw [he, ih fun a ha => h a (List.mem_cons_of_mem _ ha)]

/-! ## Declarations in different scopes -/

section Declarations

variable (hgraph : engine.graph.Acyclic) {address : String} {n : Graph.Node}
  (hn : engine.graph.node? address = some n) (hmissing : n.missing = []) {scope scope' : Scope}
  (halike : ShowAlike n.dependencies scope scope')

include hgraph hn hmissing halike

/-- An expression of a declaration mentions nothing but its dependencies, unless the declaration is
an input variable. -/
theorem agreeOn_references (hown : ∀ path, n.declaration.isOwn path = false) {role : String}
    {e : Expr} (he : (role, e) ∈ n.declaration.expressions) :
    Scope.AgreeOn e.references scope scope' := fun path hpath =>
  halike path fun hkind =>
    mem_dependencies_of_references hgraph hn hmissing he hpath hkind (hown path)

theorem localValue_eq {v : LocalValue} (hv : n.declaration = .localValue v) :
    v.expression.evaluate engine.library scope = v.expression.evaluate engine.library scope' := by
  have he : ("value", v.expression) ∈ n.declaration.expressions := by
    simp [hv, Declaration.expressions]
  have hagree := agreeOn_references hgraph hn hmissing halike (fun _ => by rw [hv]; rfl) he
  exact v.expression.evaluate_congr engine.library hagree

theorem output_eq {o : OutputValue} (ho : n.declaration = .output o) :
    o.expression.evaluate engine.library scope = o.expression.evaluate engine.library scope' := by
  have he : ("value", o.expression) ∈ n.declaration.expressions := by
    simp [ho, Declaration.expressions]
  have hagree := agreeOn_references hgraph hn hmissing halike (fun _ => by rw [ho]; rfl) he
  exact o.expression.evaluate_congr engine.library hagree

/-- The conditions of an input variable may mention the variable itself, which is no dependency. -/
theorem inputValue_eq {v : InputVariable} (hv : n.declaration = .input v) :
    engine.inputValue v scope = engine.inputValue v scope' := by
  refine inputValue_congr fun rule hrule path hpath hown => halike path fun hkind => ?_
  obtain ⟨role, he⟩ := exists_expression_of_mem_validations hrule
  rw [← hv] at he
  refine mem_dependencies_of_references hgraph hn hmissing he hpath hkind ?_
  rw [hv]
  simpa [Declaration.isOwn] using hown

variable {r : Resource} (hr : n.declaration = .resource r)

include hr

theorem multiplicity_eq : (r.multiplicity.mapM fun e => e.evaluate engine.library scope)
    = r.multiplicity.mapM fun e => e.evaluate engine.library scope' := by
  cases hmultiplicity : r.multiplicity with
  | none => rfl
  | some e =>
    have he : ("multiplicity", e) ∈ n.declaration.expressions := by
      simp [hr, Declaration.expressions, hmultiplicity]
    have hagree := agreeOn_references hgraph hn hmissing halike (fun _ => by rw [hr]; rfl) he
    simp [e.evaluate_congr engine.library hagree]

/-- What an expansion binds is in front of the dependencies, in both scopes alike. -/
theorem argumentValues_eq (bindings : Table SymbolPath Value) :
    argumentValues engine.library (scope.child bindings) r.arguments
      = argumentValues engine.library (scope'.child bindings) r.arguments := by
  refine argumentValues_congr fun argument hargument => Expr.evaluate_congr _ _ ?_
  have hmem : argument ∈ n.declaration.expressions := by
    simp [hr, Declaration.expressions, hargument]
  have hagree := agreeOn_references hgraph hn hmissing halike (fun _ => by rw [hr]; rfl) hmem
  exact hagree.child _

end Declarations

/-! ## Nodes that are needed -/

/-- The search for failures goes on behind a node that has a value, and behind one that has none
it only resolves the others. -/
theorem runFrom_firstFailure_cons (s : State) (resolve : NodeId → Pass Value) (node : NodeId)
    (nodes : List NodeId) :
    runFrom s (firstFailure resolve (node :: nodes)) = match runFrom s (resolve node) with
      | (.ok _, s') => runFrom s' (firstFailure resolve nodes)
      | (.error (.unresolved f), s') =>
        ((runFrom s' (firstFailure resolve nodes)).1.map fun _ => some f,
          (runFrom s' (firstFailure resolve nodes)).2)
      | (.error (.fault fault), s') => (.error (.fault fault), s') := by
  simp only [firstFailure]
  rw [runFrom_bind, runFrom_outcomeOf]
  rcases runFrom s (resolve node) with ⟨(f | fault) | v, s'⟩
  · dsimp only
    rw [runFrom_bind]
    change (match runFrom s' (firstFailure resolve nodes >>= fun later => pure ((some f).or later))
      with | r => r) = _
    rw [runFrom_bind]
    rcases runFrom s' (firstFailure resolve nodes) with ⟨_ | _, _⟩ <;> rfl
  · rfl
  · dsimp only
    rw [runFrom_bind]
    change (match runFrom s' (firstFailure resolve nodes >>= fun later => pure (Option.or none later))
      with | r => r) = _
    rw [runFrom_bind]
    rcases runFrom s' (firstFailure resolve nodes) with ⟨_ | _, _⟩ <;> rfl

theorem firstFailure_yields {resolve : NodeId → Pass Value} {nodes : List NodeId}
    (hs : Sound engine overlay Admitted s)
    (hresolve : ∀ m ∈ nodes, ∀ s', Sound engine overlay Admitted s' → Extends s s' →
      Resolves engine overlay Admitted s' (resolve m) m) :
    Yields engine overlay Admitted s (firstFailure resolve nodes)
      (firstFailureOf (engine.verdict overlay) nodes)
      (fun found s' => found = none → Valued engine overlay s' nodes) := by
  induction nodes generalizing s with
  | nil => exact .pure hs fun _ => nofun
  | cons node nodes ih =>
    have hnode := (hresolve node (by simp) s hs (.refl s)).yields.outcomeOf
    simp only [firstFailure, firstFailureOf]
    refine hnode.bind_ok fun s' hs' hextends hvalue => ?_
    have hrest := ih hs' fun m hm s'' hs'' hextends' =>
      hresolve m (List.mem_cons_of_mem node hm) s'' hs'' (hextends.trans hextends')
    cases hverdict : engine.verdict overlay node with
    | error stop =>
      cases stop with
      | fault fault => exact .throw hs' (.fault fault)
      | unresolved f =>
        -- The later nodes are resolved as well, but the first failure stays.
        refine .pure_bind (hrest.bind fun found s'' hs'' _ _ => .pure hs'' ?_)
        intro hnone
        cases hnone
    | ok v =>
      refine .pure_bind (hrest.bind fun found s'' hs'' hextends' hvalued => .pure hs'' ?_)
      intro hnone m hm
      rcases List.mem_cons.mp hm with rfl | hm
      · exact ⟨v, hverdict, hextends'.value? (hvalue v hverdict)⟩
      · exact hvalued hnone m hm

theorem resolveAll_yields {resolve : NodeId → Pass Value} {nodes : List NodeId}
    (hs : Sound engine overlay Admitted s)
    (hresolve : ∀ m ∈ nodes, ∀ s', Sound engine overlay Admitted s' → Extends s s' →
      Resolves engine overlay Admitted s' (resolve m) m) :
    Yields engine overlay Admitted s (resolveAll resolve nodes)
      (requireAll (engine.verdict overlay) nodes)
      (fun _ s' => Valued engine overlay s' nodes) := by
  refine (firstFailure_yields hs hresolve).bind fun found s' hs' _ hvalued => ?_
  cases found with
  | some f => exact .throw hs' (.unresolved f)
  | none => exact .pure hs' (hvalued rfl)

/-! ## Resources -/

section Resources

variable (hgraph : engine.graph.Acyclic) (hs : Sound engine overlay Admitted s)
  {n : Graph.Node} {r : Resource} (hn : engine.graph.node? r.address = some n)
  (hr : n.declaration = .resource r) (hmissing : n.missing = [])
  (hvalued : Valued engine overlay s (n.dependencies.map .ofAddress))

include hgraph hs hn hr hmissing hvalued

theorem expansionFor_yields :
    Yields engine overlay Admitted s (engine.expansionFor r)
      (ofFault (engine.expansionOf (engine.verdict overlay) n r))
      (fun e s' => Table.get? s'.expansions r.address = some e) := by
  unfold expansionFor
  refine .get_bind ?_
  cases hcached : Table.get? s.expansions r.address with
  | some e =>
    rw [hs.expansionOf_eq hn hr hcached]
    exact .pure hs hcached
  | none =>
    -- The source is evaluated in the scope of the state, which the verdicts agree with.
    have hsource := multiplicity_eq hgraph hn hmissing (rootScope_showAlike hvalued) hr
    dsimp only
    rw [hsource]
    cases hexpansion : engine.expansionOf (engine.verdict overlay) n r with
    | error fault =>
      unfold expansionOf at hexpansion
      cases hvalue : (r.multiplicity.mapM fun e =>
          e.evaluate engine.library (scopeOf (engine.verdict overlay) n.dependencies)) with
      | error fault' =>
        rw [hvalue] at hexpansion
        cases hexpansion
        exact .throw hs (.fault fault)
      | ok source =>
        rw [hvalue] at hexpansion
        have hof : Expansion.of engine.settings.maxInstances r source = .error fault := hexpansion
        refine .pure_bind ?_
        rw [hof]
        exact .throw hs (.fault fault)
    | ok e =>
      obtain ⟨hsound, hextends⟩ := hs.expand hcached hn hr hexpansion
      obtain ⟨source, hvalue, hof⟩ := bind_eq_ok_iff.mp hexpansion
      rw [hvalue]
      refine .pure_bind ?_
      rw [hof]
      refine .pure_bind (.modify_bind hextends (.pure hsound ?_))
      exact Table.get?_put_self _ _ _

theorem evaluateInstance_yields (node : NodeId) :
    Yields engine overlay Admitted s (engine.evaluateInstance r node)
      (do
        let e ← ofFault (engine.expansionOf (engine.verdict overlay) n r)
        engine.instanceResult overlay (engine.verdict overlay) n r node e)
      (fun _ _ => True) := by
  unfold evaluateInstance
  refine (expansionFor_yields hgraph hs hn hr hmissing hvalued).bind ?_
  intro e s' hs' hextends _
  unfold instanceResult
  by_cases habsent : (e.isDeferred || !e.keys.contains node.key) = true
  · rw [if_pos habsent, if_pos habsent]
    exact .throw hs' _
  · rw [if_neg habsent, if_neg habsent]
    refine .get_bind ?_
    have harguments := argumentValues_eq hgraph hn hmissing
      (rootScope_showAlike (hvalued.mono hextends)) hr (e.bindingsFor node.key)
    dsimp only
    rw [harguments]
    refine (Yields.ofOutcome hs' _).bind fun arguments s'' hs'' _ _ => ?_
    rw [hs'.applied]
    exact .modify_aside hs'' rfl rfl rfl fun hafter => .pure hafter trivial

theorem evaluateTemplate_yields (htemplate : r.multiplicity.isSome = true)
    (hadmitted : ∀ e, engine.expansionOf (engine.verdict overlay) n r = .ok e →
      ∀ key ∈ e.keys, Admitted ⟨r.address, key⟩) {resolve : NodeId → Pass Value}
    (hresolve : ∀ key : InstanceKey, ∀ s', Sound engine overlay Admitted s' → Extends s s' →
      Admitted ⟨r.address, some key⟩ →
      Resolves engine overlay Admitted s' (resolve ⟨r.address, some key⟩)
        ⟨r.address, some key⟩) :
    Yields engine overlay Admitted s (engine.evaluateTemplate resolve r)
      (engine.templateResult (engine.verdict overlay) n r)
      (fun _ s' => Aggregated s' r.address) := by
  unfold evaluateTemplate templateResult
  cases hexpansion : engine.expansionOf (engine.verdict overlay) n r with
  | error fault =>
    have hyields := expansionFor_yields hgraph hs hn hr hmissing hvalued
    rw [hexpansion] at hyields
    exact hyields.bind_error
  | ok e =>
    obtain ⟨haddress, hkeys⟩ := keys_of_expansionOf htemplate hexpansion
    have hyields := expansionFor_yields hgraph hs hn hr hmissing hvalued
    rw [hexpansion] at hyields
    refine hyields.bind_ok fun s' hs' hextends hcached => ?_
    show Yields _ _ _ _ _ (if e.isDeferred = true then _ else _) _
    by_cases hdeferred : e.isDeferred = true
    · -- Deferred instances are only noted in the state.
      rw [if_pos hdeferred, if_pos hdeferred]
      refine .modify_aside hs' rfl rfl rfl fun hs'' => .pure hs'' ?_
      exact ⟨e, hcached, fun hexpanded => absurd hdeferred (by simp [hexpanded])⟩
    · rw [if_neg hdeferred, if_neg hdeferred]
      have hall : ∀ m ∈ e.keys.map fun key => (⟨r.address, key⟩ : NodeId), ∀ s'',
          Sound engine overlay Admitted s'' → Extends s' s'' →
          Resolves engine overlay Admitted s'' (resolve m) m := by
        intro m hm s'' hs'' hextends'
        obtain ⟨key, hkey, rfl⟩ := List.mem_map.mp hm
        have hadmitted := hadmitted e hexpansion key hkey
        obtain ⟨key, rfl⟩ := Option.isSome_iff_exists.mp (hkeys key hkey)
        exact hresolve key s'' hs'' (hextends.trans hextends') hadmitted
      refine (resolveAll_yields hs' hall).bind fun _ s'' hs'' hextends' hinstances => ?_
      refine .get_bind ?_
      -- By now all instances have values in the state, and these are the verdicts.
      have haggregate : s''.aggregate? e
          = aggregateOf (fun m => (engine.verdict overlay m).toOption) e := by
        show aggregateOf s''.value? e = _
        refine aggregateOf_congr fun key hkey => ?_
        obtain ⟨v, hverdict, hv⟩ := hinstances ⟨r.address, key⟩ (List.mem_map_of_mem hkey)
        rw [haddress, hv, hverdict]
        rfl
      rw [haggregate]
      refine .pure hs'' ⟨e, hextends'.expansions _ _ hcached, fun _ key hkey => ?_⟩
      obtain ⟨v, _, hv⟩ := hinstances ⟨r.address, key⟩ (List.mem_map_of_mem hkey)
      rw [hv]
      rfl

end Resources

/-! ## Nodes -/

/-- Fuel is enough for a node. -/
def Ready (engine : Engine) (s : State) (fuel : Nat) (node : NodeId) : Prop :=
  (Table.get? s.settled node).isSome = true
    ∨ engine.graph.rank node.address + 2 ≤ fuel
    ∨ 0 < fuel ∧ node.key.isSome = true ∧ ∀ d, engine.graph.Refers node.address d →
        (Table.get? s.settled (.ofAddress d)).isSome = true

/-- Fuel is enough for what a node needs. -/
def ReadyBelow (engine : Engine) (s : State) (fuel : Nat) (node : NodeId) : Prop :=
  engine.graph.rank node.address + 1 ≤ fuel
    ∨ node.key.isSome = true ∧ ∀ d, engine.graph.Refers node.address d →
        (Table.get? s.settled (.ofAddress d)).isSome = true

theorem Extends.isSome {s s' : State} (h : Extends s s') {node : NodeId}
    (hnode : (Table.get? s.settled node).isSome = true) :
    (Table.get? s'.settled node).isSome = true := by
  obtain ⟨outcome, houtcome⟩ := Option.isSome_iff_exists.mp hnode
  rw [h.settled node outcome houtcome]
  rfl

/-- Without fuel a node must have been settled. -/
theorem Ready.false_of_zero {node : NodeId} (h : Ready engine s 0 node)
    (hunsettled : Table.get? s.settled node = none) : False := by
  rcases h with hsettled | hrank | ⟨hpositive, _⟩
  · rw [hunsettled] at hsettled
    cases hsettled
  · omega
  · omega

/-- One unit of fuel is spent on a node that is not settled yet. -/
theorem Ready.below {fuel : Nat} {node : NodeId} (h : Ready engine s (fuel + 1) node)
    (hunsettled : Table.get? s.settled node = none) : ReadyBelow engine s fuel node := by
  rcases h with hsettled | hrank | ⟨_, hinstance⟩
  · rw [hunsettled] at hsettled
    cases hsettled
  · exact .inl (by omega)
  · exact .inr hinstance

/-- The dependencies of a node have lower ranks. -/
theorem ReadyBelow.dependency (hgraph : engine.graph.Acyclic) {s' : State} {fuel : Nat}
    {node : NodeId} (h : ReadyBelow engine s fuel node) (hextends : Extends s s') {d : String}
    (hd : engine.graph.Refers node.address d) : Ready engine s' fuel (.ofAddress d) := by
  rcases h with hrank | ⟨_, hsettled⟩
  · have hlt := hgraph.rank_lt hd
    refine .inr (.inl ?_)
    show engine.graph.rank d + 2 ≤ fuel
    omega
  · exact .inl (hextends.isSome (hsettled d hd))

/-- What a declaration refers to may be settled, and the fuel is enough for it. -/
theorem ReadyBelow.of_mem_dependencies (hgraph : engine.graph.Acyclic)
    (hclosed : Closed engine overlay Admitted) {s' : State} {fuel : Nat} {node m : NodeId}
    (h : ReadyBelow engine s fuel node) (hadmitted : Admitted node) {n : Graph.Node}
    (hn : engine.graph.node? node.address = some n) (hmissing : n.missing = [])
    (hm : m ∈ n.dependencies.map NodeId.ofAddress) (hextends : Extends s s') :
    Admitted m ∧ Ready engine s' fuel m ∧ engine.graph.Refers node.address m.address := by
  obtain ⟨d, hd, rfl⟩ := List.mem_map.mp hm
  have hrefers : engine.graph.Refers node.address d := Graph.refers_iff.mpr ⟨n, hn, hd⟩
  exact ⟨hclosed node _ hadmitted (.dependency hn hmissing hd),
    h.dependency hgraph hextends hrefers, hrefers⟩

/-- An instance finds the dependencies of its template settled, and needs no more fuel. -/
theorem ReadyBelow.member {s' s'' : State} {fuel : Nat} {node : NodeId}
    (h : ReadyBelow engine s fuel node) {n : Graph.Node}
    (hn : engine.graph.node? node.address = some n)
    (hvalued : Valued engine overlay s' (n.dependencies.map .ofAddress))
    (hextends : Extends s' s'') (hkey : node.key = none) (key : InstanceKey) :
    Ready engine s'' fuel ⟨node.address, some key⟩ := by
  refine .inr (.inr ⟨?_, rfl, fun d hd => ?_⟩)
  · rcases h with hrank | ⟨hsome, _⟩
    · omega
    · rw [hkey] at hsome
      cases hsome
  · obtain ⟨n', hn', hd⟩ := Graph.refers_iff.mp hd
    rw [hn] at hn'
    cases hn'
    obtain ⟨v, _, hv⟩ := hvalued (.ofAddress d) (List.mem_map_of_mem hd)
    rw [value?_eq_some_iff.mp (hextends.value? hv)]
    rfl

/-- The value of a declaration whose dependencies have values. -/
def evaluateDeclaration (engine : Engine) (resolve : NodeId → Pass Value) (n : Graph.Node)
    (node : NodeId) (scope : Scope) : Pass Value :=
  match n.declaration with
  | .input v => ofOutcome (engine.inputValue v scope)
  | .localValue v => ofOutcome (v.expression.evaluate engine.library scope)
  | .output o => ofOutcome (o.expression.evaluate engine.library scope)
  | .resource r =>
    if node.key.isNone && r.multiplicity.isSome then engine.evaluateTemplate resolve r
    else engine.evaluateInstance r node

/-- What a template that has a value leaves behind. -/
def Leaves (engine : Engine) (node : NodeId) (s : State) : Prop :=
  ∀ n r, engine.IsTemplate node n r → Aggregated s node.address

/-- A template whose dependencies have values makes an expansion, if its source can be evaluated. -/
theorem expands_of_template {n : Graph.Node} {node : NodeId} {r : Resource} {e : Expansion}
    (hn : engine.graph.node? node.address = some n) (hr : n.declaration = .resource r)
    (hmissing : n.missing = []) (hvalued : Valued engine overlay s (n.dependencies.map .ofAddress))
    (htemplate : (node.key.isNone && r.multiplicity.isSome) = true)
    (he : engine.expansionOf (engine.verdict overlay) n r = .ok e) :
    engine.Expands overlay node n r e := by
  obtain ⟨hkey, hmultiplicity⟩ := Bool.and_eq_true_iff.mp htemplate
  exact ⟨⟨hn, hr, hmultiplicity, Option.isNone_iff_eq_none.mp hkey⟩, hmissing, hvalued.required, he⟩

/-- The values of the dependencies settle what a declaration comes to. -/
theorem declaration_yields (hgraph : engine.graph.Acyclic)
    (hs : Sound engine overlay Admitted s) {n : Graph.Node} {node : NodeId}
    (hn : engine.graph.node? node.address = some n) (hmissing : n.missing = [])
    (hvalued : Valued engine overlay s (n.dependencies.map .ofAddress))
    (hadmitted : ∀ r e, engine.Expands overlay node n r e → ∀ key ∈ e.keys,
      Admitted ⟨node.address, key⟩) {resolve : NodeId → Pass Value}
    (hresolve : ∀ key : InstanceKey, node.key = none → ∀ s', Sound engine overlay Admitted s' →
      Extends s s' → Admitted ⟨node.address, some key⟩ →
      Resolves engine overlay Admitted s' (resolve ⟨node.address, some key⟩)
        ⟨node.address, some key⟩) :
    Yields engine overlay Admitted s
      (engine.evaluateDeclaration resolve n node (rootScope s))
      (engine.declarationResult overlay (engine.verdict overlay) n node)
      (fun _ s' => Leaves engine node s') := by
  have hleaves : (∀ r, ¬ engine.IsTemplate node n r) → ∀ s', Leaves engine node s' := by
    intro hnone s' n' r htemplate
    have hsame : n' = n := Option.some.inj (htemplate.declared.symm.trans hn)
    exact absurd (hsame ▸ htemplate) (hnone r)
  have hother : (∀ r, n.declaration ≠ .resource r) → ∀ s', Leaves engine node s' :=
    fun hother => hleaves fun r htemplate => hother r htemplate.resource
  have halike := rootScope_showAlike hvalued
  unfold declarationResult evaluateDeclaration
  cases hdeclaration : n.declaration with
  | input v =>
    dsimp only
    rw [inputValue_eq hgraph hn hmissing halike hdeclaration]
    exact (Yields.ofOutcome hs _).mono fun _ s' _ => hother (by simp [hdeclaration]) s'
  | localValue v =>
    dsimp only
    rw [localValue_eq hgraph hn hmissing halike hdeclaration]
    exact (Yields.ofOutcome hs _).mono fun _ s' _ => hother (by simp [hdeclaration]) s'
  | output o =>
    dsimp only
    rw [output_eq hgraph hn hmissing halike hdeclaration]
    exact (Yields.ofOutcome hs _).mono fun _ s' _ => hother (by simp [hdeclaration]) s'
  | resource r =>
    have haddress := address_of_resource hn hdeclaration
    dsimp only
    by_cases htemplate : (node.key.isNone && r.multiplicity.isSome) = true
    · rw [if_pos htemplate, if_pos htemplate]
      have hadmitted := fun e he =>
        hadmitted r e (expands_of_template hn hdeclaration hmissing hvalued htemplate he)
      obtain ⟨hkey, hmultiplicity⟩ := Bool.and_eq_true_iff.mp htemplate
      have hkey := Option.isNone_iff_eq_none.mp hkey
      rw [haddress] at hn hresolve hadmitted
      refine (evaluateTemplate_yields hgraph hs hn hdeclaration hmissing hvalued hmultiplicity
        hadmitted fun key => hresolve key hkey).mono fun _ s' haggregated => ?_
      intro _ _ _
      rw [haddress]
      exact haggregated
    · rw [if_neg htemplate, if_neg htemplate]
      have hsingle := hleaves (not_isTemplate_of_single hdeclaration htemplate)
      rw [haddress] at hn
      exact (evaluateInstance_yields hgraph hs hn hdeclaration hmissing hvalued node).mono
        fun _ s' _ => hsingle s'

theorem evaluateNode_yields (hgraph : engine.graph.Acyclic)
    (hclosed : Closed engine overlay Admitted) (hs : Sound engine overlay Admitted s)
    {node : NodeId} (hadmitted : Admitted node) {resolve : NodeId → Pass Value} {fuel : Nat}
    (hready : ReadyBelow engine s fuel node)
    (hresolve : ∀ m s', Sound engine overlay Admitted s' → Extends s s' → Admitted m →
      Ready engine s' fuel m → Resolves engine overlay Admitted s' (resolve m) m) :
    Yields engine overlay Admitted s (engine.evaluateNode resolve node)
      (engine.evaluationOf overlay (engine.verdict overlay) node)
      (fun _ s' => Leaves engine node s') := by
  unfold evaluateNode evaluationOf
  cases hn : engine.graph.node? node.address with
  | none => exact .throw hs _
  | some n =>
    dsimp only
    cases hmissing : n.missing with
    | cons first others => exact .throw hs _
    | nil =>
      have hdependencies : ∀ m ∈ n.dependencies.map NodeId.ofAddress, ∀ s',
          Sound engine overlay Admitted s' → Extends s s' →
          Resolves engine overlay Admitted s' (resolve m) m := by
        intro m hm s' hs' hextends
        obtain ⟨hm, hready', _⟩ :=
          hready.of_mem_dependencies hgraph hclosed hadmitted hn hmissing hm hextends
        exact hresolve m s' hs' hextends hm hready'
      refine (resolveAll_yields hs hdependencies).bind fun _ s' hs' hextends hvalued => .get_bind ?_
      refine declaration_yields hgraph hs' hn hmissing hvalued
        (fun r e hexpands key hkey => hclosed node _ hadmitted (.member hexpands hkey)) ?_
      intro key hkey s'' hs'' hextends' hadmitted
      exact hresolve _ s'' hs'' (hextends.trans hextends') hadmitted
        (hready.member hn hvalued hextends' hkey key)

/-! ## Settling -/

theorem runFrom_settling (s : State) (node : NodeId) (evaluate : Pass Value) :
    runFrom s (settling node evaluate) = match runFrom (s.count node) evaluate with
      | (.ok v, s') => (.ok v, s'.settle node (.value v))
      | (.error (.unresolved f), s') =>
        (.error (.unresolved (.inherited node f)), s'.settle node (.failure (.inherited node f)))
      | (.error (.fault (.error e)), s') =>
        (.error (.unresolved (.own node e)), s'.settle node (.failure (.own node e)))
      | (.error (.fault (.defect d)), s') => (.error (.fault (.defect d)), s') := by
  have hcount : runFrom s (modify (·.count node)) = (.ok (), s.count node) := rfl
  unfold settling
  rw [runFrom_bind, hcount]
  dsimp only
  rw [runFrom_bind, runFrom_outcomeOf]
  rcases runFrom (s.count node) evaluate with ⟨r, s'⟩
  rcases r with (f | ⟨e | d⟩) | v <;> rfl

/-- What an evaluation comes to is kept as the verdict. -/
theorem settling_resolves (hgraph : engine.graph.Acyclic) {node : NodeId}
    (hadmitted : Admitted node) {evaluate : Pass Value}
    (h : Yields engine overlay Admitted (s.count node) evaluate
      (engine.evaluationOf overlay (engine.verdict overlay) node)
      (fun _ s' => Leaves engine node s')) :
    Resolves engine overlay Admitted s (settling node evaluate) node := by
  obtain ⟨s', hrun, hs', hextends, hleaves⟩ := h
  have hextends : Extends s s' := ⟨hextends.settled, hextends.expansions⟩
  have hverdict := verdict_eq hgraph overlay node
  have hkeep : ∀ outcome : Settled, outcome.result = engine.verdict overlay node →
      Leaves engine node s' ∨ (∃ f, outcome = .failure f) →
      runFrom s (settling node evaluate) = (outcome.result, s'.settle node outcome) →
      Resolves engine overlay Admitted s (settling node evaluate) node := by
    intro outcome hresult hleaves hsettling
    have hsettled := hs'.settle hresult hadmitted fun n r htemplate hvalue => by
      rcases hleaves with hleaves | ⟨f, rfl⟩
      · exact hleaves n r htemplate
      · obtain ⟨v, hv⟩ := hvalue
        cases hv
    refine ⟨_, hsettling.trans (by rw [hresult]), hsettled.1, hextends.trans hsettled.2, ?_⟩
    intro outcome' hresult'
    rw [Settled.result_injective (hresult'.trans hresult.symm)]
    exact Table.get?_put_self _ _ _
  have hsettling := runFrom_settling s node evaluate
  rw [hrun] at hsettling
  cases hevaluation : engine.evaluationOf overlay (engine.verdict overlay) node with
  | ok v =>
    rw [hevaluation] at hverdict hsettling
    exact hkeep (.value v) hverdict.symm (.inl (hleaves v hevaluation)) hsettling
  | error stop =>
    rw [hevaluation] at hverdict hsettling
    rcases stop with f | ⟨e | d⟩
    · exact hkeep (.failure (.inherited node f)) hverdict.symm (.inr ⟨_, rfl⟩) hsettling
    · exact hkeep (.failure (.own node e)) hverdict.symm (.inr ⟨_, rfl⟩) hsettling
    · -- A defect is not kept, and nothing that is kept has it as its result.
      refine ⟨s', hsettling.trans (by rw [hverdict]; rfl), hs', hextends, ?_⟩
      intro outcome hresult
      rw [hverdict] at hresult
      cases outcome <;> cases hresult

/-- What has been settled is the verdict already. -/
theorem settledOr_resolves (hs : Sound engine overlay Admitted s) {node : NodeId}
    {otherwise : Pass Value}
    (h : Table.get? s.settled node = none →
      Resolves engine overlay Admitted s otherwise node) :
    Resolves engine overlay Admitted s (settledOr node otherwise) node := by
  cases hfound : Table.get? s.settled node with
  | none =>
    obtain ⟨s', hrun', hrest⟩ := h hfound
    refine ⟨s', ?_, hrest⟩
    unfold settledOr
    rw [runFrom_get_bind, hfound]
    exact hrun'
  | some outcome =>
    have hresult := hs.settled node outcome hfound
    refine ⟨s, ?_, hs, .refl s, fun outcome' hresult' => ?_⟩
    · unfold settledOr
      rw [runFrom_get_bind, hfound, ← hresult]
      cases outcome <;> rfl
    · rw [Settled.result_injective (hresult'.trans hresult.symm)]
      exact hfound

/-- Resolving a node settles it by its verdict, if the fuel is enough. -/
theorem resolveWithin_resolves (hgraph : engine.graph.Acyclic)
    (hclosed : Closed engine overlay Admitted) {fuel : Nat} {node : NodeId}
    (hs : Sound engine overlay Admitted s) (hadmitted : Admitted node)
    (hready : Ready engine s fuel node) :
    Resolves engine overlay Admitted s (engine.resolveWithin fuel node) node := by
  induction fuel generalizing node s with
  | zero =>
    exact settledOr_resolves hs fun hunsettled => (hready.false_of_zero hunsettled).elim
  | succ fuel ih =>
    refine settledOr_resolves hs fun hunsettled => settling_resolves hgraph hadmitted ?_
    have hcounted : Sound engine overlay Admitted (s.count node) := hs.of_eq rfl rfl rfl
    have hbelow : ReadyBelow engine (s.count node) fuel node := hready.below hunsettled
    exact evaluateNode_yields hgraph hclosed hcounted hadmitted hbelow
      fun m s' hs' _ hm hready' => ih hs' hm hready'

/-- Resolving a node settles it by its verdict. -/
theorem resolveNode_resolves (hgraph : engine.graph.Acyclic)
    (hclosed : Closed engine overlay Admitted) {node : NodeId}
    (hs : Sound engine overlay Admitted s) (hadmitted : Admitted node) :
    Resolves engine overlay Admitted s (engine.resolveNode node) node := by
  refine resolveWithin_resolves hgraph hclosed hs hadmitted (.inr (.inl ?_))
  have hrank := hgraph.rank_le_size node.address
  omega

end Engine

end Groundplan
