import Groundplan.Proofs.Engine.Passes

/-!
# States Keep What Settled Nodes Need

Before a node is settled, everything that its evaluation needs has been settled: its dependencies,
behind one that has failed as well, and the instances of its expansion.  The expansion of a template
is kept, and one that is deferred is noted.  A state in which this holds of all settled nodes is
complete.

The proof follows the evaluation of a node.  What the steps come to is known from their verdicts, so
that only the states that they leave are considered here.

## Main Definitions

- `Engine.Prepared`: what the evaluation of a node leaves behind
- `Engine.Complete`: it is there for every settled node
- `Engine.Advances`: what a state has kept or noted stays, and what is noted is deferred
- `Engine.Completes`: a computation keeps a state complete

## Main Statements

- `Engine.resolveNode_visits`: resolving a node keeps a state complete and settles the node
-/

namespace Groundplan

namespace Engine

variable {engine : Engine} {overlay : Overlay} {Admitted : NodeId → Prop} {s s' : State}

/-! ## Complete states -/

/-- Something has become of a node. -/
def State.IsSettled (s : State) (node : NodeId) : Prop :=
  (Table.get? s.settled node).isSome = true

theorem State.isSettled_of_get? {node : NodeId} {outcome : Settled}
    (h : Table.get? s.settled node = some outcome) : s.IsSettled node := by
  unfold State.IsSettled
  rw [h]
  rfl

theorem State.isSettled_of_value? {node : NodeId} {v : Value} (h : s.value? node = some v) :
    s.IsSettled node :=
  isSettled_of_get? (value?_eq_some_iff.mp h)

/-- What the evaluation of a node leaves behind. -/
structure Prepared (engine : Engine) (overlay : Overlay) (s : State) (node : NodeId) : Prop where
  needed : ∀ m, engine.Needs overlay node m → s.IsSettled m
  expanded : ∀ n r e, engine.Expands overlay (.ofAddress node.address) n r e →
    Table.get? s.expansions node.address = some e
  noted : ∀ n r e, engine.Expands overlay node n r e → e.isDeferred = true →
    node.address ∈ s.deferred

/-- Whatever settled nodes need is settled, too, and their expansions are kept. -/
def Complete (engine : Engine) (overlay : Overlay) (s : State) : Prop :=
  ∀ node, s.IsSettled node → Prepared engine overlay s node

/-- The instances of a declaration are deferred. -/
def Defers (engine : Engine) (overlay : Overlay) (address : String) : Prop :=
  ∃ n r e, engine.Expands overlay (.ofAddress address) n r e ∧ e.isDeferred = true

/-- A later state keeps what is kept and noted, and notes deferred instances only. -/
structure Advances (engine : Engine) (overlay : Overlay) (Admitted : NodeId → Prop)
    (s s' : State) : Prop extends Extends s s' where
  kept : ∀ address ∈ s.deferred, address ∈ s'.deferred
  noted : ∀ address ∈ s'.deferred,
    address ∈ s.deferred ∨ Admitted (.ofAddress address) ∧ engine.Defers overlay address

namespace Advances

theorem of_eq (hextends : Extends s s') (hdeferred : s'.deferred = s.deferred) :
    Advances engine overlay Admitted s s' := by
  refine ⟨hextends, fun address h => ?_, fun address h => .inl ?_⟩
  · rwa [hdeferred]
  · rwa [← hdeferred]

theorem refl (s : State) : Advances engine overlay Admitted s s :=
  of_eq (.refl s) rfl

theorem trans {s'' : State} (h : Advances engine overlay Admitted s s')
    (h' : Advances engine overlay Admitted s' s'') : Advances engine overlay Admitted s s'' := by
  refine ⟨h.toExtends.trans h'.toExtends, fun address hkept => h'.kept address (h.kept address hkept),
    fun address hnoted => ?_⟩
  rcases h'.noted address hnoted with hearlier | hnow
  · exact h.noted address hearlier
  · exact .inr hnow

end Advances

theorem Prepared.mono {node : NodeId} (h : Prepared engine overlay s node)
    (hadvances : Advances engine overlay Admitted s s') : Prepared engine overlay s' node :=
  ⟨fun m hm => hadvances.isSome (h.needed m hm),
    fun n r e he => hadvances.expansions _ _ (h.expanded n r e he),
    fun n r e he hdeferred => hadvances.kept _ (h.noted n r e he hdeferred)⟩

namespace Complete

/-- A state in which no other nodes are settled is still complete. -/
theorem of_eq (h : Complete engine overlay s) (hsettled : s'.settled = s.settled)
    (hadvances : Advances engine overlay Admitted s s') : Complete engine overlay s' := by
  intro node hnode
  unfold State.IsSettled at hnode
  rw [hsettled] at hnode
  exact (h node hnode).mono hadvances

/-- A node may be settled once it has been prepared. -/
theorem settle (h : Complete engine overlay s) {node : NodeId} {outcome : Settled}
    (hextends : Extends s (s.settle node outcome)) (hprepared : Prepared engine overlay s node) :
    Complete engine overlay (s.settle node outcome) := by
  have hadvances : Advances engine overlay (fun _ => True) s (s.settle node outcome) :=
    .of_eq hextends rfl
  intro m hm
  by_cases hnode : node = m
  · exact hnode ▸ hprepared.mono hadvances
  · unfold State.IsSettled at hm
    rw [State.settle, Table.get?_put_of_ne _ _ hnode] at hm
    exact (h m hm).mono hadvances

end Complete

/-! ## Computations -/

/-- A computation keeps a state complete, and the postcondition holds of what it comes to. -/
def Completes (engine : Engine) (overlay : Overlay) (Admitted : NodeId → Prop) {α : Type}
    (s : State) (p : Pass α) (post : Except Stop α → State → Prop) : Prop :=
  ∀ r s', runFrom s p = (r, s') →
    Complete engine overlay s' ∧ Advances engine overlay Admitted s s' ∧ post r s'

/-- No defect has been met. -/
def IsRegular {α : Type} (r : Except Stop α) : Prop :=
  ∀ d, r ≠ .error (.fault (.defect d))

@[simp]
theorem isRegular_ok {α : Type} (a : α) : IsRegular (.ok a : Except Stop α) := by
  simp [IsRegular]

@[simp]
theorem isRegular_unresolved {α : Type} (f : Failure) :
    IsRegular (.error (.unresolved f) : Except Stop α) := by
  simp [IsRegular]

@[simp]
theorem isRegular_error {α : Type} (e : EvalError) :
    IsRegular (.error (.fault (.error e)) : Except Stop α) := by
  simp [IsRegular]

/-- What is kept of a node is no defect. -/
theorem isRegular_result (outcome : Settled) : IsRegular outcome.result := by
  cases outcome with
  | value v => exact isRegular_ok v
  | failure f => exact isRegular_unresolved f

/-- A computation keeps a state complete, and settles a node unless it meets a defect. -/
def Visits (engine : Engine) (overlay : Overlay) (Admitted : NodeId → Prop) (s : State)
    (p : Pass Value) (node : NodeId) : Prop :=
  Completes engine overlay Admitted s p fun r s' => IsRegular r → s'.IsSettled node

namespace Completes

variable {α β : Type} {post : Except Stop α → State → Prop} {post' : Except Stop β → State → Prop}

theorem ofOutcome (hs : Complete engine overlay s) {r : Outcome α}
    (hpost : ∀ r, post r s) : Completes engine overlay Admitted s (Engine.ofOutcome r) post := by
  intro r' s' hrun
  have hsame : s' = s := by
    cases r <;> cases hrun <;> rfl
  subst hsame
  exact ⟨hs, .refl s', hpost r'⟩

theorem bind {p : Pass α} {f : α → Pass β} (hp : Completes engine overlay Admitted s p post)
    (hnext : ∀ a s', runFrom s p = (.ok a, s') → Complete engine overlay s' →
      Advances engine overlay Admitted s s' → post (.ok a) s' →
      Completes engine overlay Admitted s' (f a) post')
    (hstop : ∀ stop s', runFrom s p = (.error stop, s') → Advances engine overlay Admitted s s' →
      post (.error stop) s' → post' (.error stop) s') :
    Completes engine overlay Admitted s (p >>= f) post' := by
  intro r s'' hrun
  rw [runFrom_bind] at hrun
  generalize hfirst : runFrom s p = first at hrun
  obtain ⟨r', s'⟩ := first
  obtain ⟨hs', hadvances, hpost⟩ := hp r' s' hfirst
  cases r' with
  | error stop =>
    cases hrun
    exact ⟨hs', hadvances, hstop stop _ hfirst hadvances hpost⟩
  | ok a =>
    obtain ⟨hs'', hadvances', hpost'⟩ := hnext a s' hfirst hs' hadvances hpost r s'' hrun
    exact ⟨hs'', hadvances.trans hadvances', hpost'⟩

theorem mono {p : Pass α} {post' : Except Stop α → State → Prop}
    (hp : Completes engine overlay Admitted s p post)
    (hpost : ∀ r s', Advances engine overlay Admitted s s' → post r s' → post' r s') :
    Completes engine overlay Admitted s p post' := by
  intro r s' hrun
  obtain ⟨hs', hadvances, h⟩ := hp r s' hrun
  exact ⟨hs', hadvances, hpost r s' hadvances h⟩

end Completes

/-- What a computation comes to is known from its specification. -/
theorem Yields.of_run {α : Type} {p : Pass α} {r r' : Except Stop α} {post : α → State → Prop}
    (h : Yields engine overlay Admitted s p r post) (hrun : runFrom s p = (r', s')) :
    r' = r ∧ Sound engine overlay Admitted s' ∧ Extends s s' ∧ ∀ a, r = .ok a → post a s' := by
  obtain ⟨s'', hrun', h⟩ := h
  rw [hrun] at hrun'
  cases hrun'
  exact ⟨rfl, h⟩

/-! ## Nodes that are needed -/

/-- A computation settles a node by its verdict, and keeps the state complete. -/
structure Reaches (engine : Engine) (overlay : Overlay) (Admitted : NodeId → Prop) (s : State)
    (p : Pass Value) (node : NodeId) : Prop where
  resolves : Resolves engine overlay Admitted s p node
  visits : Complete engine overlay s → Visits engine overlay Admitted s p node

/-- All of the nodes are visited, also behind one that has failed. -/
theorem firstFailure_completes (hgraph : engine.graph.Acyclic)
    {resolve : NodeId → Pass Value} {nodes : List NodeId}
    (hs : Sound engine overlay Admitted s) (hcomplete : Complete engine overlay s)
    (hresolve : ∀ m ∈ nodes, ∀ s', Sound engine overlay Admitted s' → Extends s s' →
      Reaches engine overlay Admitted s' (resolve m) m) :
    Completes engine overlay Admitted s (firstFailure resolve nodes)
      (fun r s' => IsRegular r → ∀ m ∈ nodes, s'.IsSettled m) := by
  induction nodes generalizing s with
  | nil =>
    intro r s' hrun
    cases hrun
    exact ⟨hcomplete, .refl _, fun _ => nofun⟩
  | cons node nodes ih =>
    obtain ⟨hresolves, hvisits⟩ := hresolve node (by simp) s hs (.refl s)
    intro r s'' hrun
    rw [runFrom_firstFailure_cons] at hrun
    generalize hfirst : runFrom s (resolve node) = first at hrun
    obtain ⟨result, s'⟩ := first
    obtain ⟨hverdict, hs', hextends, _⟩ := hresolves.yields.of_run hfirst
    obtain ⟨hcomplete', hadvances, hsettled⟩ := hvisits hcomplete _ _ hfirst
    -- The later nodes are visited from the state that is left, whatever the first one comes to.
    have hrest := ih hs' hcomplete' fun m hm s'' hs'' hextends' =>
      hresolve m (List.mem_cons_of_mem node hm) s'' hs'' (hextends.trans hextends')
    have hall : IsRegular result → ∀ later t, runFrom s' (firstFailure resolve nodes) = (later, t) →
        Complete engine overlay t ∧ Advances engine overlay Admitted s t
          ∧ (IsRegular later → ∀ m ∈ node :: nodes, t.IsSettled m) := by
      intro hregular later t hlater
      obtain ⟨hcomplete'', hadvances', hsettled'⟩ := hrest later t hlater
      refine ⟨hcomplete'', hadvances.trans hadvances', fun hregular' m hm => ?_⟩
      rcases List.mem_cons.mp hm with rfl | hm
      · exact hadvances'.isSome (hsettled hregular)
      · exact hsettled' hregular' m hm
    rcases result with (f | ⟨e | d⟩) | v
    · dsimp only at hrun
      generalize hlater : runFrom s' (firstFailure resolve nodes) = later at hrun
      obtain ⟨hcomplete'', hadvances', hsettled'⟩ := hall (isRegular_unresolved f) _ _ hlater
      cases hrun
      refine ⟨hcomplete'', hadvances', fun hregular => hsettled' fun d hd => hregular d ?_⟩
      rw [hd]
      rfl
    · exact absurd hverdict.symm (verdict_ne_error hgraph overlay node e)
    · cases hrun
      exact ⟨hcomplete', hadvances, fun hregular => absurd rfl (hregular d)⟩
    · exact hall (isRegular_ok v) r s'' hrun

theorem resolveAll_completes (hgraph : engine.graph.Acyclic)
    {resolve : NodeId → Pass Value} {nodes : List NodeId}
    (hs : Sound engine overlay Admitted s) (hcomplete : Complete engine overlay s)
    (hresolve : ∀ m ∈ nodes, ∀ s', Sound engine overlay Admitted s' → Extends s s' →
      Reaches engine overlay Admitted s' (resolve m) m) :
    Completes engine overlay Admitted s (resolveAll resolve nodes)
      (fun r s' => IsRegular r → ∀ m ∈ nodes, s'.IsSettled m) := by
  refine (firstFailure_completes hgraph hs hcomplete hresolve).bind ?_ ?_
  · intro found s' _ hcomplete' _ hsettled r s'' hrun
    have hsame : s'' = s' := by
      cases found <;> cases hrun <;> rfl
    subst hsame
    exact ⟨hcomplete', .refl _, fun _ => hsettled (isRegular_ok _)⟩
  · intro stop s' _ _ hsettled hregular
    exact hsettled fun d hd => hregular d (by cases hd; rfl)

/-! ## Resources -/

section Resources

variable {r : Resource}

/-- A computation that neither settles a node nor notes a deferred one keeps a state complete. -/
theorem Yields.completes {α : Type} {p : Pass α} {result : Except Stop α}
    {post : α → State → Prop} (hyields : Yields engine overlay Admitted s p result post)
    (hcomplete : Complete engine overlay s)
    (haside : Preserves (fun t => t.settled = s.settled ∧ t.deferred = s.deferred) p) :
    Completes engine overlay Admitted s p fun r s' =>
      r = result ∧ Sound engine overlay Admitted s' ∧ ∀ a, result = .ok a → post a s' := by
  intro r' s' hrun
  have hafter := haside s ⟨rfl, rfl⟩
  rw [hrun] at hafter
  obtain ⟨hsame, hs', hextends, hpost⟩ := hyields.of_run hrun
  have hadvances : Advances engine overlay Admitted s s' := .of_eq hextends hafter.2
  exact ⟨hcomplete.of_eq hafter.1 hadvances, hadvances, hsame, hs', hpost⟩

/-- The instances of a template that are deferred may be noted. -/
theorem Advances.defer {address : String} (hadmitted : Admitted (.ofAddress address))
    (hdefers : engine.Defers overlay address) :
    Advances engine overlay Admitted s
      { s with deferred := s.deferred.filter (· ≠ address) ++ [address] } := by
  refine ⟨⟨fun _ _ h => h, fun _ _ h => h⟩, fun a hkept => ?_, fun a hnoted => ?_⟩
  · by_cases haddress : a = address <;> simp [haddress, hkept]
  · rcases List.mem_append.mp hnoted with hearlier | hnow
    · exact .inl (List.mem_filter.mp hearlier).1
    · rw [List.mem_singleton.mp hnow]
      exact .inr ⟨hadmitted, hdefers⟩

variable (hgraph : engine.graph.Acyclic) (hs : Sound engine overlay Admitted s)
  (hcomplete : Complete engine overlay s) {n : Graph.Node}
  (hn : engine.graph.node? r.address = some n) (hr : n.declaration = .resource r)
  (hmissing : n.missing = [])
  (hvalued : Valued engine overlay s (n.dependencies.map .ofAddress))

include hgraph hs hcomplete hn hr hmissing hvalued

omit hcomplete in
/-- The evaluation of an instance keeps the expansion of its resource, whatever it comes to. -/
theorem expansions_of_evaluateInstance {e : Expansion}
    (he : engine.expansionOf (engine.verdict overlay) n r = .ok e) {node : NodeId}
    {result : Except Stop Value}
    (hrun : runFrom s (engine.evaluateInstance r node) = (result, s')) :
    Table.get? s'.expansions r.address = some e := by
  obtain ⟨t, hexpand, _, _, hcached⟩ := expansionFor_yields hgraph hs hn hr hmissing hvalued
  rw [he] at hexpand hcached
  have hcached := hcached e rfl
  unfold evaluateInstance at hrun
  rw [runFrom_bind, hexpand] at hrun
  -- Behind the expansion nothing but arguments is kept.
  change runFrom t (if _ then _ else _) = _ at hrun
  split at hrun
  · cases hrun
    exact hcached
  · rw [runFrom_get_bind, runFrom_ofOutcome_bind] at hrun
    split at hrun <;> cases hrun <;> exact hcached

/-- A template keeps its expansion, and notes that it is deferred or visits its instances. -/
theorem evaluateTemplate_completes (htemplate : r.multiplicity.isSome = true)
    (hadmitted : Admitted (.ofAddress r.address)) {resolve : NodeId → Pass Value}
    (hresolve : ∀ e, engine.Expands overlay (.ofAddress r.address) n r e → ∀ key ∈ e.keys,
      ∀ s', Sound engine overlay Admitted s' → Extends s s' →
      Reaches engine overlay Admitted s' (resolve ⟨r.address, key⟩) ⟨r.address, key⟩) :
    Completes engine overlay Admitted s (engine.evaluateTemplate resolve r)
      (fun result s' => IsRegular result →
        ∀ e, engine.Expands overlay (.ofAddress r.address) n r e →
          Table.get? s'.expansions r.address = some e
            ∧ (e.isDeferred = true → r.address ∈ s'.deferred)
            ∧ ∀ key ∈ e.keys, s'.IsSettled ⟨r.address, key⟩) := by
  have hyields := expansionFor_yields hgraph hs hn hr hmissing hvalued
  refine (hyields.completes hcomplete (expansionFor_preserves fun _ _ h => h)).bind ?_ ?_
  · rintro e s' _ hcomplete' hadvances ⟨hresult, hs', hcached⟩
    have he : engine.expansionOf (engine.verdict overlay) n r = .ok e :=
      ofFault_eq_ok_iff.mp hresult.symm
    have hcached := hcached e hresult.symm
    have hexpands : engine.Expands overlay (.ofAddress r.address) n r e :=
      ⟨⟨hn, hr, htemplate, rfl⟩, hmissing, hvalued.required, he⟩
    have honly : ∀ e', engine.Expands overlay (.ofAddress r.address) n r e' → e' = e := by
      intro e' hexpands'
      exact Except.ok.inj (hexpands'.expansion.symm.trans he)
    show Completes _ _ _ _ (if e.isDeferred = true then _ else _) _
    by_cases hdeferred : e.isDeferred = true
    · rw [if_pos hdeferred]
      intro result s'' hrun
      cases hrun
      have hnoted : Advances engine overlay Admitted s' { s' with
          deferred := s'.deferred.filter (· ≠ r.address) ++ [r.address] } :=
        .defer hadmitted ⟨n, r, e, hexpands, hdeferred⟩
      refine ⟨hcomplete'.of_eq rfl hnoted, hnoted, fun _ e' he' => ?_⟩
      rw [honly e' he']
      refine ⟨hcached, fun _ => List.mem_append_right _ (List.mem_singleton.mpr rfl), ?_⟩
      -- There are no instances as long as they are deferred.
      rw [(keys_of_isDeferred he hdeferred).2]
      exact nofun
    · rw [if_neg hdeferred]
      have hinstances : ∀ s'', Advances engine overlay Admitted s' s'' →
          (∀ m ∈ e.keys.map fun key => (⟨r.address, key⟩ : NodeId), s''.IsSettled m) →
          ∀ e', engine.Expands overlay (.ofAddress r.address) n r e' →
            Table.get? s''.expansions r.address = some e'
              ∧ (e'.isDeferred = true → r.address ∈ s''.deferred)
              ∧ ∀ key ∈ e'.keys, s''.IsSettled ⟨r.address, key⟩ := by
        intro s'' hadvances' hsettled e' he'
        rw [honly e' he']
        exact ⟨hadvances'.expansions _ _ hcached, fun h => absurd h hdeferred,
          fun key hkey => hsettled _ (List.mem_map_of_mem hkey)⟩
      refine (resolveAll_completes hgraph hs' hcomplete' ?_).bind ?_ ?_
      · intro m hm s'' hs'' hextends
        obtain ⟨key, hkey, rfl⟩ := List.mem_map.mp hm
        exact hresolve e hexpands key hkey s'' hs'' (hadvances.toExtends.trans hextends)
      · intro _ s'' _ hcomplete'' hadvances' hsettled result t hrun
        cases hrun
        exact ⟨hcomplete'', .refl _, fun _ => hinstances _ hadvances' (hsettled (isRegular_ok _))⟩
      · intro stop s'' _ hadvances' hsettled hregular
        exact hinstances s'' hadvances' (hsettled fun d hd => hregular d (by cases hd; rfl))
  · rintro stop s' _ _ ⟨hresult, _, _⟩ _ e he
    rw [he.expansion] at hresult
    cases hresult

end Resources

/-! ## Nodes -/

/-- A node is prepared if its dependencies have been settled and its template has been expanded. -/
theorem prepared_of {node : NodeId} {n : Graph.Node}
    (hn : engine.graph.node? node.address = some n)
    (hdependencies : n.missing = [] → ∀ d ∈ n.dependencies, s.IsSettled (.ofAddress d))
    (hexpanded : ∀ r e, engine.Expands overlay (.ofAddress node.address) n r e →
      Table.get? s.expansions node.address = some e)
    (hmembers : ∀ r e, engine.Expands overlay node n r e →
      (e.isDeferred = true → node.address ∈ s.deferred)
        ∧ ∀ key ∈ e.keys, s.IsSettled ⟨node.address, key⟩) :
    Prepared engine overlay s node := by
  have hsame : ∀ {m : NodeId} {n' r e}, engine.Expands overlay m n' r e →
      m.address = node.address → n' = n := by
    intro m n' r e he haddress
    have hn' := he.template.declared
    rw [haddress] at hn'
    exact Option.some.inj (hn'.symm.trans hn)
  refine ⟨fun m hneeds => ?_, fun n' r e he => ?_, fun n' r e he hdeferred => ?_⟩
  · cases hneeds with
    | dependency hn' hmissing hd =>
      rw [hn] at hn'
      cases hn'
      exact hdependencies hmissing _ hd
    | member he hkey =>
      obtain rfl := hsame he rfl
      exact (hmembers _ _ he).2 _ hkey
  · obtain rfl := hsame he rfl
    exact hexpanded r e he
  · obtain rfl := hsame he rfl
    exact (hmembers r e he).1 hdeferred

/-- Whatever declares no template has nothing to expand. -/
theorem prepared_of_dependencies {node : NodeId} {n : Graph.Node}
    (hn : engine.graph.node? node.address = some n)
    (hdependencies : ∀ d ∈ n.dependencies, s.IsSettled (.ofAddress d))
    (hnone : ∀ r e, ¬ engine.Expands overlay (.ofAddress node.address) n r e) :
    Prepared engine overlay s node :=
  prepared_of hn (fun _ => hdependencies) (fun r e he => absurd he (hnone r e))
    fun r e he => absurd he.ofAddress (hnone r e)

/-- The values of the dependencies prepare a declaration, and its instances a template. -/
theorem declaration_completes (hgraph : engine.graph.Acyclic)
    (hs : Sound engine overlay Admitted s) (hcomplete : Complete engine overlay s)
    {n : Graph.Node} {node : NodeId} (hn : engine.graph.node? node.address = some n)
    (hmissing : n.missing = [])
    (hvalued : Valued engine overlay s (n.dependencies.map .ofAddress))
    (hadmitted : Admitted node) {resolve : NodeId → Pass Value}
    (hresolve : ∀ r e, engine.Expands overlay node n r e → ∀ key ∈ e.keys,
      ∀ s', Sound engine overlay Admitted s' → Extends s s' →
      Reaches engine overlay Admitted s' (resolve ⟨node.address, key⟩) ⟨node.address, key⟩) :
    Completes engine overlay Admitted s
      (engine.evaluateDeclaration resolve n node (rootScope s))
      (fun result s' => IsRegular result → Prepared engine overlay s' node) := by
  have hdependencies : ∀ d ∈ n.dependencies, s.IsSettled (.ofAddress d) := by
    intro d hd
    obtain ⟨v, _, hv⟩ := hvalued (.ofAddress d) (List.mem_map_of_mem hd)
    exact State.isSettled_of_value? hv
  have hother : (∀ r, n.declaration ≠ .resource r) → Prepared engine overlay s node :=
    fun hnone => prepared_of_dependencies hn hdependencies
      fun r e he => hnone r he.template.resource
  unfold evaluateDeclaration
  cases hdeclaration : n.declaration with
  | input v | localValue v | output o =>
    exact .ofOutcome hcomplete fun _ _ => hother (by simp [hdeclaration])
  | resource r =>
    dsimp only
    have haddress := address_of_resource hn hdeclaration
    by_cases htemplate : (node.key.isNone && r.multiplicity.isSome) = true
    · rw [if_pos htemplate]
      obtain ⟨hkey, hmultiplicity⟩ := Bool.and_eq_true_iff.mp htemplate
      have hwhole : node = .ofAddress r.address := by
        rw [← haddress]
        obtain ⟨address, key⟩ := node
        cases key with
        | none => rfl
        | some key => cases hkey
      subst hwhole
      refine (evaluateTemplate_completes hgraph hs hcomplete hn hdeclaration hmissing hvalued
        hmultiplicity hadmitted fun e he => hresolve r e he).mono ?_
      intro result s' hadvances hexpands hregular
      have hexpands : ∀ r' e, engine.Expands overlay (.ofAddress r.address) n r' e →
          Table.get? s'.expansions r.address = some e
            ∧ (e.isDeferred = true → r.address ∈ s'.deferred)
            ∧ ∀ key ∈ e.keys, s'.IsSettled ⟨r.address, key⟩ := by
        intro r' e he
        have hresource := he.template.resource
        rw [hdeclaration] at hresource
        cases hresource
        exact hexpands hregular e he
      exact prepared_of hn (fun _ d hd => hadvances.isSome (hdependencies d hd))
        (fun r' e he => (hexpands r' e he).1) fun r' e he => (hexpands r' e he).2
    · rw [if_neg htemplate]
      have hn' := hn
      rw [haddress] at hn'
      intro result s' hrun
      obtain ⟨hcomplete', hadvances, _⟩ :=
        (evaluateInstance_yields hgraph hs hn' hdeclaration hmissing hvalued node).completes
          hcomplete (evaluateInstance_preserves (fun _ _ h => h) fun _ _ h => h) result s' hrun
      refine ⟨hcomplete', hadvances, fun _ => prepared_of hn
        (fun _ d hd => hadvances.isSome (hdependencies d hd)) (fun r' e he => ?_)
        fun r' e he => ?_⟩
      · -- An instance keeps the expansion of its template.
        have hresource := he.template.resource
        rw [hdeclaration] at hresource
        cases hresource
        rw [haddress]
        exact expansions_of_evaluateInstance hgraph hs hn' hdeclaration hmissing hvalued
          he.expansion hrun
      · exact absurd he.template (not_isTemplate_of_single hdeclaration htemplate r')

/-- An evaluation prepares its node, whatever it comes to. -/
theorem evaluateNode_completes (hgraph : engine.graph.Acyclic)
    (hclosed : Closed engine overlay Admitted) (hs : Sound engine overlay Admitted s)
    (hcomplete : Complete engine overlay s) {node : NodeId} (hadmitted : Admitted node)
    {resolve : NodeId → Pass Value} {fuel : Nat} (hready : ReadyBelow engine s fuel node)
    (hresolve : ∀ m s', Sound engine overlay Admitted s' → Extends s s' → Admitted m →
      Ready engine s' fuel m → Reaches engine overlay Admitted s' (resolve m) m) :
    Completes engine overlay Admitted s (engine.evaluateNode resolve node)
      (fun r s' => IsRegular r → Prepared engine overlay s' node) := by
  unfold evaluateNode
  cases hn : engine.graph.node? node.address with
  | none =>
    intro r s' hrun
    cases hrun
    refine ⟨hcomplete, .refl _, fun _ => ⟨fun m hneeds => ?_, fun n r e he => ?_, fun n r e he => ?_⟩⟩
    · cases hneeds with
      | dependency hn' => cases hn.symm.trans hn'
      | member he => cases hn.symm.trans he.template.declared
    · cases hn.symm.trans he.template.declared
    · cases hn.symm.trans he.template.declared
  | some n =>
    dsimp only
    cases hmissing : n.missing with
    | cons first others =>
      intro r s' hrun
      cases hrun
      refine ⟨hcomplete, .refl _, fun _ => prepared_of hn (fun hnone => ?_) (fun r e he => ?_)
        fun r e he => ?_⟩
      · cases hmissing.symm.trans hnone
      · cases hmissing.symm.trans he.declared
      · cases hmissing.symm.trans he.declared
    | nil =>
      have hdependencies : ∀ m ∈ n.dependencies.map NodeId.ofAddress, ∀ s',
          Sound engine overlay Admitted s' → Extends s s' →
          Reaches engine overlay Admitted s' (resolve m) m := by
        intro m hm s' hs' hextends
        obtain ⟨hm, hready', _⟩ :=
          hready.of_mem_dependencies hgraph hclosed hadmitted hn hmissing hm hextends
        exact hresolve m s' hs' hextends hm hready'
      have hyields := resolveAll_yields hs fun m hm s' hs' hextends =>
        (hdependencies m hm s' hs' hextends).resolves
      refine (resolveAll_completes hgraph hs hcomplete hdependencies).bind ?_ ?_
      · intro _ s' hrun hcomplete' hadvances _
        obtain ⟨hrequired, hs', _, hvalued⟩ := hyields.of_run hrun
        have hvalued := hvalued () hrequired.symm
        refine declaration_completes hgraph hs' hcomplete' hn hmissing hvalued hadmitted ?_
        intro r e he key hkey s'' hs'' hextends
        obtain ⟨key, rfl⟩ := Option.isSome_iff_exists.mp
          ((keys_of_expansionOf he.template.multiple he.expansion).2 key hkey)
        exact hresolve _ s'' hs'' (hadvances.toExtends.trans hextends)
          (hclosed node _ hadmitted (.member he hkey))
          (hready.member hn hvalued hextends he.template.whole key)
      · -- With a dependency that has no value, nothing is expanded.
        intro stop s' hrun hadvances hsettled hregular
        obtain ⟨hrequired, _⟩ := hyields.of_run hrun
        have hsettled := hsettled fun d hd => hregular d (by cases hd; rfl)
        refine prepared_of_dependencies hn
          (fun d hd => hsettled _ (List.mem_map_of_mem hd)) fun r e he => ?_
        rw [he.required] at hrequired
        cases hrequired

/-! ## Resolutions -/

/-- A node that has been prepared is settled. -/
theorem settling_visits (hgraph : engine.graph.Acyclic) {node : NodeId} {evaluate : Pass Value}
    {post : Value → State → Prop}
    (hyields : Yields engine overlay Admitted (s.count node) evaluate
      (engine.evaluationOf overlay (engine.verdict overlay) node) post)
    (h : Completes engine overlay Admitted (s.count node) evaluate
      fun r s' => IsRegular r → Prepared engine overlay s' node) :
    Visits engine overlay Admitted s (settling node evaluate) node := by
  intro r s'' hrun
  rw [runFrom_settling] at hrun
  generalize hevaluate : runFrom (s.count node) evaluate = evaluated at hrun
  obtain ⟨result, s'⟩ := evaluated
  obtain ⟨hresult, hs', _⟩ := hyields.of_run hevaluate
  obtain ⟨hcomplete, hadvances, hprepared⟩ := h result s' hevaluate
  have hverdict := verdict_eq hgraph overlay node
  rw [← hresult] at hverdict
  have hcounted : Advances engine overlay Admitted s s' :=
    ⟨⟨hadvances.settled, hadvances.expansions⟩, hadvances.kept, hadvances.noted⟩
  have hkeep : ∀ outcome : Settled, outcome.result = engine.verdict overlay node →
      IsRegular result → s'' = s'.settle node outcome →
      Complete engine overlay s'' ∧ Advances engine overlay Admitted s s''
        ∧ (IsRegular r → s''.IsSettled node) := by
    rintro outcome houtcome hregular rfl
    have hextends := hs'.extends_settle houtcome
    exact ⟨hcomplete.settle hextends (hprepared hregular), hcounted.trans (.of_eq hextends rfl),
      fun _ => State.isSettled_of_get? (Table.get?_put_self _ _ _)⟩
  rcases result with (f | ⟨e | d⟩) | v
  · cases hrun
    exact hkeep (.failure (.inherited node f)) hverdict.symm (isRegular_unresolved f) rfl
  · cases hrun
    exact hkeep (.failure (.own node e)) hverdict.symm (isRegular_error e) rfl
  · -- A defect settles nothing.
    cases hrun
    exact ⟨hcomplete, hcounted, fun hregular => absurd rfl (hregular d)⟩
  · cases hrun
    exact hkeep (.value v) hverdict.symm (isRegular_ok v) rfl

theorem settledOr_reaches {node : NodeId} {otherwise : Pass Value}
    (hresolves : Resolves engine overlay Admitted s (settledOr node otherwise) node)
    (h : Table.get? s.settled node = none → Complete engine overlay s →
      Visits engine overlay Admitted s otherwise node) :
    Reaches engine overlay Admitted s (settledOr node otherwise) node := by
  refine ⟨hresolves, fun hcomplete r s' hrun => ?_⟩
  unfold settledOr at hrun
  rw [runFrom_get_bind] at hrun
  cases hfound : Table.get? s.settled node with
  | none =>
    rw [hfound] at hrun
    exact h hfound hcomplete r s' hrun
  | some outcome =>
    rw [hfound] at hrun
    have hsame : s' = s := by
      cases outcome <;> cases hrun <;> rfl
    subst hsame
    exact ⟨hcomplete, .refl _, fun _ => State.isSettled_of_get? hfound⟩

/-- Resolving a node visits it, if the fuel is enough. -/
theorem resolveWithin_reaches (hgraph : engine.graph.Acyclic)
    (hclosed : Closed engine overlay Admitted) {fuel : Nat} {node : NodeId}
    (hs : Sound engine overlay Admitted s) (hadmitted : Admitted node)
    (hready : Ready engine s fuel node) :
    Reaches engine overlay Admitted s (engine.resolveWithin fuel node) node := by
  have hresolves := resolveWithin_resolves hgraph hclosed hs hadmitted hready
  induction fuel generalizing node s with
  | zero =>
    exact settledOr_reaches hresolves fun hunsettled => (hready.false_of_zero hunsettled).elim
  | succ fuel ih =>
    refine settledOr_reaches hresolves fun hunsettled hcomplete => ?_
    have hcounted : Sound engine overlay Admitted (s.count node) := hs.of_eq rfl rfl rfl
    have hbelow : ReadyBelow engine (s.count node) fuel node := hready.below hunsettled
    have hadvances : Advances engine overlay Admitted s (s.count node) :=
      .of_eq ⟨fun _ _ h => h, fun _ _ h => h⟩ rfl
    have hcomplete' : Complete engine overlay (s.count node) :=
      hcomplete.of_eq rfl hadvances
    refine settling_visits hgraph
      (evaluateNode_yields hgraph hclosed hcounted hadmitted hbelow
        fun m s' hs' _ hm hready' => resolveWithin_resolves hgraph hclosed hs' hm hready')
      (evaluateNode_completes hgraph hclosed hcounted hcomplete' hadmitted hbelow
        fun m s' hs' _ hm hready' => ih hs' hm hready'
          (resolveWithin_resolves hgraph hclosed hs' hm hready'))

/-- Resolving a node keeps a state complete and settles the node, unless it meets a defect. -/
theorem resolveNode_visits (hgraph : engine.graph.Acyclic)
    (hclosed : Closed engine overlay Admitted) (hs : Sound engine overlay Admitted s)
    (hcomplete : Complete engine overlay s) {node : NodeId} (hadmitted : Admitted node) :
    Visits engine overlay Admitted s (engine.resolveNode node) node := by
  refine (resolveWithin_reaches hgraph hclosed hs hadmitted (.inr (.inl ?_))).visits hcomplete
  have hrank := hgraph.rank_le_size node.address
  omega

end Engine

end Groundplan
