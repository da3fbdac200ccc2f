import Groundplan.Proofs.Engine.Resolution

/-!
# Watching a Resolution

An engine keeps what has become of nodes, but not which nodes are in progress.  Here the nodes in
progress are kept as well, and every resolution knows the chain of nodes for which it is made.
Where a resolution would come to a halt or turn back on itself, the watched engine is caught in a
trap: it resolves a node that is in progress, or one of its own chain, or it goes too deep, or it
evaluates a declaration that refers to one without a value, or looks up such a value.  What happens
in a trap is left open.

The watched engine comes to the same results and states as the engine whatever its traps are.  So it
is never caught in one: a trap might raise a defect, and no expression survives a defect.  The proof
follows the resolution.  All nodes in progress lie strictly above the node that is resolved, and
nodes are evaluated in scopes that differ on no symbol that their expressions mention.

## Main Definitions

- `Engine.Watched`, `Engine.Watch`: computations that know the nodes in progress
- `Engine.Traps`: what happens where no resolution should ever come
- `Engine.Watch.resolveWithin`: the watched resolution
- `Engine.Mirrors`: a watched computation does what the engine does
- `Engine.Above`: a node is resolved for another one
- `Engine.Follows`: a watched resolution settles its node as the engine does

## Main Statements

- `Engine.Above.trans`, `Engine.Above.irrefl`: without cycles nodes are resolved for nodes above
- `Engine.Watch.scope_showAlike`: the scopes show the same of declarations that have values
- `Engine.evaluateNode_mirrors`: a node is above all that its evaluation resolves
- `Engine.resolveWithin_follows`: the watched resolution follows that of the engine
-/

namespace Groundplan

namespace Engine

/-! ## The watched engine -/

/-- A state, and the nodes whose evaluation has begun and has not come to its end. -/
structure Watched where
  state : State
  active : List NodeId

/-- A computation that knows the nodes in progress. -/
abbrev Watch (α : Type) := ExceptT Stop (StateM Watched) α

/-- What happens where no resolution should ever come.  Nothing is assumed of it. -/
structure Traps where
  /-- The value of a declaration is looked up that has none, or of one that does not exist. -/
  lookup : State → SymbolPath → Outcome Value
  /-- Expressions are to be evaluated that mention such a declaration. -/
  mention : SymbolPath → Watch Unit
  /-- A node is resolved that is in progress, so that one would have to wait for it. -/
  wait : NodeId → Watch Value
  /-- A node is resolved again for its own sake. -/
  cycle : List NodeId → NodeId → Watch Value
  /-- A resolution goes deeper than allowed. -/
  depth : NodeId → Watch Value

namespace Watch

/-- A computation of the engine, which begins and ends no evaluation. -/
def lift {α : Type} (p : Pass α) : Watch α :=
  fun w => ((runFrom w.state p).1, { w with state := (runFrom w.state p).2 })

/-- What a computation comes to; this itself does not stop. -/
def outcomeOf {α : Type} (q : Watch α) : Watch (Except Stop α) :=
  ExceptT.lift q.run

/-- Resolve nodes one after another, also behind one that has no value; the first failure is the
result. -/
def firstFailure (resolve : NodeId → Watch Value) : List NodeId → Watch (Option Failure)
  | [] => return none
  | node :: nodes => do
    let own ← match ← outcomeOf (resolve node) with
      | .ok _ => pure none
      | .error (.unresolved f) => pure (some f)
      | .error (.fault f) => throw (.fault f)
    return own.or (← firstFailure resolve nodes)

/-- Resolve nodes one after another, and stop if one has no value. -/
def resolveAll (resolve : NodeId → Watch Value) (nodes : List NodeId) : Watch Unit := do
  match ← firstFailure resolve nodes with
  | some f => throw (.unresolved f)
  | none => return ()

/-- Evaluate a node, which is in progress meanwhile, and keep what becomes of it. -/
def settling (node : NodeId) (evaluate : Watch Value) : Watch Value := do
  modify fun w => ⟨w.state.count node, w.active ++ [node]⟩
  let r ← outcomeOf evaluate
  modify fun w => { w with active := w.active.filter (· ≠ node) }
  match r with
  | .ok v =>
    lift (modify (·.settle node (.value v)))
    return v
  | .error (.unresolved f) => lift (settling.keep node (.inherited node f))
  | .error (.fault (.error e)) => lift (settling.keep node (.own node e))
  | .error (.fault (.defect d)) => throw (.fault (.defect d))

section Traps

variable (engine : Engine) (traps : Traps)

/-- The scope in which all declarations are seen, by the values that they have. -/
def scope (s : State) : Scope :=
  let resolver (path : SymbolPath) : Outcome Value :=
    if path.kind.isReferenceable then
      match s.value? (.ofAddress path.address) with
      | some v => .ok v
      | none => traps.lookup s path
    else fail (.undefinedSymbol path.address []) none
  [⟨[], some resolver⟩]

/-- Check that declarations have values. -/
def demand : List SymbolPath → Watch Unit
  | [] => return ()
  | path :: paths => do
    if ((← lift get).value? (.ofAddress path.address)).isNone then traps.mention path
    demand paths

/-- The expansion of a resource, which is made once. -/
def expansionFor (r : Resource) : Pass Expansion := do
  let s ← get
  match Table.get? s.expansions r.address with
  | some e => return e
  | none =>
    let source ← ofOutcome (r.multiplicity.mapM fun e => e.evaluate engine.library (scope traps s))
    let e ← ofOutcome (Expansion.of engine.settings.maxInstances r source)
    modify fun s => { s with expansions := Table.put s.expansions r.address e }
    return e

/-- The value of an instance. -/
def evaluateInstance (r : Resource) (node : NodeId) : Pass Value := do
  let e ← expansionFor engine traps r
  if e.isDeferred || !e.keys.contains node.key then
    throw (.fault (.error ⟨.undefinedSymbol node.text [], r.span, []⟩))
  let s ← get
  let scope := (scope traps s).child (e.bindingsFor node.key)
  let arguments ← ofOutcome (argumentValues engine.library scope r.arguments)
  modify fun s => { s with arguments := Table.put s.arguments node arguments }
  let applied := (Table.get? s.applied node).getD []
  return .object (attributes arguments r.computed applied)

/-- The value of a template. -/
def evaluateTemplate (resolve : NodeId → Watch Value) (r : Resource) : Watch Value := do
  let e ← lift (expansionFor engine traps r)
  if e.isDeferred then
    lift (modify fun s =>
      { s with deferred := s.deferred.filter (· ≠ r.address) ++ [r.address] })
    return .unknown
  resolveAll resolve (e.keys.map fun key => ⟨r.address, key⟩)
  return ((← lift get).aggregate? e).getD .unknown

/-- The value of a declaration whose dependencies have values. -/
def evaluateDeclaration (resolve : NodeId → Watch Value) (n : Graph.Node) (node : NodeId)
    (scope : Scope) : Watch Value :=
  match n.declaration with
  | .input v => lift (ofOutcome (engine.inputValue v scope))
  | .localValue v => lift (ofOutcome (v.expression.evaluate engine.library scope))
  | .output o => lift (ofOutcome (o.expression.evaluate engine.library scope))
  | .resource r =>
    if node.key.isNone && r.multiplicity.isSome then evaluateTemplate engine traps resolve r
    else lift (evaluateInstance engine traps r node)

/-- The value of a node, given how others are resolved. -/
def evaluateNode (resolve : NodeId → Watch Value) (node : NodeId) : Watch Value := do
  match engine.graph.node? node.address with
  | none => throw (.fault (.error ⟨.undefinedSymbol node.text [], none, []⟩))
  | some n =>
    match n.missing with
    | first :: others =>
      throw (.fault (.error (missingError first others n.declaration.span)))
    | [] =>
      resolveAll resolve (n.dependencies.map .ofAddress)
      demand traps n.declaration.references
      evaluateDeclaration engine traps resolve n node (scope traps (← lift get))

/-- Resolve a node for a chain of others: what has become of it, or else the result of an
evaluation, unless it is in progress or in the chain itself. -/
def enter (chain : List NodeId) (node : NodeId) (evaluate : Watch Value) : Watch Value := do
  if chain.contains node then traps.cycle chain node
  else
    let w ← get
    match Table.get? w.state.settled node with
    | some (.value v) => return v
    | some (.failure f) => throw (.unresolved f)
    | none => if w.active.contains node then traps.wait node else evaluate

/-- The value of a node that is resolved for a chain of others. -/
def resolveWithin : Nat → List NodeId → NodeId → Watch Value
  | 0, chain, node => enter traps chain node (traps.depth node)
  | depth + 1, chain, node =>
    enter traps chain node
      (settling node (evaluateNode engine traps (resolveWithin depth (chain ++ [node])) node))

end Traps

end Watch

/-! ## Mirroring -/

section Mirroring

variable {α β : Type} {w : Watched}

theorem Watch.run_bind (w : Watched) (q : Watch α) (g : α → Watch β) :
    (q >>= g).run w = match q.run w with
      | (.ok a, w') => (g a).run w'
      | (.error stop, w') => (.error stop, w') := by
  show (match q.run w with | (r, w') => (ExceptT.bindCont g r).run w') = _
  rcases q.run w with ⟨r, w'⟩
  cases r <;> rfl

theorem Watch.run_modify_bind (w : Watched) (change : Watched → Watched) (g : Unit → Watch β) :
    (modify change >>= g : Watch β).run w = (g ()).run (change w) :=
  rfl

theorem Watch.run_outcomeOf (w : Watched) (q : Watch α) :
    (Watch.outcomeOf q).run w = (.ok (q.run w).1, (q.run w).2) :=
  rfl

/-- A watched computation does what one of the engine does, and begins no evaluation that it does not
end. -/
def Mirrors (w : Watched) (p : Pass α) (q : Watch α) : Prop :=
  q.run w = ((runFrom w.state p).1, ⟨(runFrom w.state p).2, w.active⟩)

namespace Mirrors

theorem lift (p : Pass α) : Mirrors w p (Watch.lift p) :=
  rfl

/-- Computations of the engine that do the same from this state mirror each other. -/
theorem of_runFrom_eq {p p' : Pass α} (h : runFrom w.state p = runFrom w.state p') :
    Mirrors w p' (Watch.lift p) := by
  show _ = _
  rw [← h]
  rfl

theorem pure (a : α) : Mirrors w (Pure.pure a) (Pure.pure a) :=
  rfl

theorem throw (stop : Stop) : Mirrors w (throw stop : Pass α) (throw stop) :=
  rfl

theorem outcomeOf {p : Pass α} {q : Watch α} (h : Mirrors w p q) :
    Mirrors w (Engine.outcomeOf p) (Watch.outcomeOf q) := by
  unfold Mirrors at h ⊢
  rw [Watch.run_outcomeOf, h]
  rfl

theorem bind {p : Pass α} {q : Watch α} {f : α → Pass β} {g : α → Watch β} (h : Mirrors w p q)
    (hnext : ∀ a s', runFrom w.state p = (.ok a, s') → Mirrors ⟨s', w.active⟩ (f a) (g a)) :
    Mirrors w (p >>= f) (q >>= g) := by
  unfold Mirrors at h hnext ⊢
  rw [runFrom_bind, Watch.run_bind, h]
  generalize hfirst : runFrom w.state p = first
  obtain ⟨r, s'⟩ := first
  cases r with
  | error stop => rfl
  | ok a => exact hnext a s' hfirst

theorem pure_bind {a : α} {f : α → Pass β} {g : α → Watch β} (h : Mirrors w (f a) (g a)) :
    Mirrors w (Pure.pure a >>= f) (Pure.pure a >>= g) :=
  h

/-- The next step may assume that the first one has succeeded. -/
theorem ofOutcome_bind (r : Outcome α) {f : α → Pass β} {g : α → Watch β}
    (hnext : ∀ a, r = .ok a → Mirrors w (f a) (g a)) :
    Mirrors w (Engine.ofOutcome r >>= f) (Watch.lift (Engine.ofOutcome r) >>= g) := by
  cases r with
  | ok a => exact hnext a rfl
  | error fault => exact throw (.fault fault)

/-- Both read the same state. -/
theorem get_bind {f : State → Pass β} {g : State → Watch β}
    (h : Mirrors w (f w.state) (g w.state)) :
    Mirrors w (get >>= f) (Watch.lift get >>= g) :=
  h

/-- Both change the state in the same way. -/
theorem modify_bind {change : State → State} {f : Unit → Pass β} {g : Unit → Watch β}
    (h : Mirrors ⟨change w.state, w.active⟩ (f ()) (g ())) :
    Mirrors w (modify change >>= f) (Watch.lift (modify change) >>= g) :=
  h

end Mirrors

end Mirroring

/-! ## Nodes above others -/

/-- A node is resolved for another one: a dependency, directly or through others, or an instance for
its template. -/
def Above (g : Graph) (m node : NodeId) : Prop :=
  Relation.TransGen g.Refers m.address node.address
    ∨ m.address = node.address ∧ m.key = none ∧ node.key.isSome = true

namespace Above

variable {g : Graph} {m node : NodeId} {nodes : List NodeId}

theorem dependency (hrefers : g.Refers node.address m.address) : Above g node m :=
  .inl (.single hrefers)

theorem member (hwhole : node.key = none) (key : InstanceKey) :
    Above g node ⟨node.address, some key⟩ :=
  .inr ⟨rfl, hwhole, rfl⟩

/-- Instances have no instances, so that a template above another node stands at most once. -/
theorem trans {m' : NodeId} (h : Above g m node) (h' : Above g node m') : Above g m m' := by
  rcases h with hpath | ⟨haddress, _, hsome⟩ <;> rcases h' with hpath' | ⟨haddress', hkey', _⟩
  · exact .inl (hpath.trans hpath')
  · exact .inl (haddress' ▸ hpath)
  · exact .inl (haddress ▸ hpath')
  · -- The node in the middle would have a key and have none.
    rw [hkey'] at hsome
    cases hsome

/-- Without cycles no node is above itself. -/
theorem irrefl (hg : g.Acyclic) (node : NodeId) : ¬ Above g node node := by
  rintro (hpath | ⟨_, hkey, hsome⟩)
  · exact hg.irreflexive _ hpath
  · rw [hkey] at hsome
    cases hsome

theorem not_mem (hg : g.Acyclic) (h : ∀ m ∈ nodes, Above g m node) : node ∉ nodes :=
  fun hm => irrefl hg node (h node hm)

/-- What is above a node is above all that the node is above, and so is the node itself. -/
theorem append_self (h : ∀ m ∈ nodes, Above g m node) {m' : NodeId} (h' : Above g node m') :
    ∀ m ∈ nodes ++ [node], Above g m m' := by
  intro m hm
  rcases List.mem_append.mp hm with hm | hm
  · exact (h m hm).trans h'
  · exact List.mem_singleton.mp hm ▸ h'

end Above

/-! ## Evaluations in both scopes -/

section Scopes

variable {engine : Engine} {overlay : Overlay} {Admitted : NodeId → Prop} {s : State}
  (traps : Traps)

/-- The scopes show the same of all declarations that have values. -/
theorem Watch.scope_showAlike {dependencies : List String}
    (h : Valued engine overlay s (dependencies.map .ofAddress)) :
    ShowAlike dependencies (Watch.scope traps s) (rootScope s) := by
  intro path hpath span
  have hwatched : Scope.lookup (Watch.scope traps s) path span
      = if path.kind.isReferenceable then
          match s.value? (.ofAddress path.address) with
          | some v => .ok v
          | none => traps.lookup s path
        else fail (.undefinedSymbol path.address []) none := rfl
  have hroot : rootScope s = scopeSeeing fun path =>
      if path.kind.isReferenceable then s.value? (.ofAddress path.address) else none := rfl
  rw [hwatched, hroot, lookup_scopeSeeing]
  cases hkind : path.kind.isReferenceable with
  | false => rfl
  | true =>
    -- The declaration has a value, so that the trap is not reached.
    obtain ⟨v, _, hv⟩ := h _ (List.mem_map_of_mem (hpath hkind))
    rw [if_pos rfl, if_pos rfl, hv]

/-- Declarations that have values meet the demand. -/
theorem Watch.run_demand {w : Watched} {paths : List SymbolPath}
    (hpaths : ∀ path ∈ paths, ∃ v, w.state.value? (.ofAddress path.address) = some v) :
    (Watch.demand traps paths).run w = (.ok (), w) := by
  induction paths with
  | nil => rfl
  | cons path paths ih =>
    obtain ⟨v, hv⟩ := hpaths path (by simp)
    show ExceptT.run (if (w.state.value? (.ofAddress path.address)).isNone then
        traps.mention path >>= fun _ => Watch.demand traps paths
      else Watch.demand traps paths) w = _
    rw [hv]
    exact ih fun path' hpath' => hpaths path' (List.mem_cons_of_mem path hpath')

/-- A declaration may be evaluated once its dependencies have values. -/
theorem Mirrors.demand_bind {α : Type} {w : Watched} {paths : List SymbolPath} {p : Pass α}
    {f : Unit → Watch α}
    (hpaths : ∀ path ∈ paths, ∃ v, w.state.value? (.ofAddress path.address) = some v)
    (h : Mirrors w p (f ())) : Mirrors w p (Watch.demand traps paths >>= f) := by
  unfold Mirrors at h ⊢
  rw [Watch.run_bind, Watch.run_demand traps hpaths]
  exact h

end Scopes

/-! ## Resources -/

section Resources

variable {engine : Engine} {overlay : Overlay} {Admitted : NodeId → Prop} (traps : Traps)
  (hgraph : engine.graph.Acyclic) {s : State} {n : Graph.Node} {r : Resource}
  (hn : engine.graph.node? r.address = some n) (hr : n.declaration = .resource r)
  (hmissing : n.missing = [])
  (hvalued : Valued engine overlay s (n.dependencies.map .ofAddress))

include hgraph hn hr hmissing hvalued

/-- The number or the names of instances are the same in both scopes. -/
theorem runFrom_expansionFor :
    runFrom s (Watch.expansionFor engine traps r) = runFrom s (engine.expansionFor r) := by
  have hsource := multiplicity_eq hgraph hn hmissing (Watch.scope_showAlike traps hvalued) hr
  unfold Watch.expansionFor expansionFor
  rw [runFrom_get_bind, runFrom_get_bind]
  cases Table.get? s.expansions r.address with
  | some e => rfl
  | none =>
    dsimp only
    rw [hsource]

variable (hs : Sound engine overlay Admitted s)

include hs

/-- The arguments of an instance are the same in both scopes. -/
theorem runFrom_evaluateInstance (node : NodeId) :
    runFrom s (Watch.evaluateInstance engine traps r node)
      = runFrom s (engine.evaluateInstance r node) := by
  obtain ⟨s', hrun, _, hextends, _⟩ := expansionFor_yields hgraph hs hn hr hmissing hvalued
  unfold Watch.evaluateInstance evaluateInstance
  rw [runFrom_bind, runFrom_bind, runFrom_expansionFor traps hgraph hn hr hmissing hvalued, hrun]
  cases engine.expansionOf (engine.verdict overlay) n r with
  | error fault => rfl
  | ok e =>
    -- The dependencies still have their values once the expansion has been made.
    have hvalued' := hvalued.mono hextends
    have harguments := argumentValues_eq hgraph hn hmissing (Watch.scope_showAlike traps hvalued')
      hr (e.bindingsFor node.key)
    show runFrom s' (if _ then _ else _) = runFrom s' (if _ then _ else _)
    split
    · rfl
    · rw [runFrom_get_bind, runFrom_get_bind]
      dsimp only
      rw [harguments]

end Resources

/-! ## Resolutions -/

section Resolutions

variable {engine : Engine} {overlay : Overlay} {Admitted : NodeId → Prop} {w : Watched}

/-- The next computation may assume what the first one comes to. -/
theorem Mirrors.bind_of_yields {α β : Type} {p : Pass α} {q : Watch α} {r : Except Stop α}
    {post : α → State → Prop} {f : α → Pass β} {g : α → Watch β}
    (hp : Yields engine overlay Admitted w.state p r post) (h : Mirrors w p q)
    (hnext : ∀ a s', r = .ok a → Sound engine overlay Admitted s' → Extends w.state s' →
      post a s' → Mirrors ⟨s', w.active⟩ (f a) (g a)) :
    Mirrors w (p >>= f) (q >>= g) := by
  obtain ⟨s', hrun, hs', hextends, hpost⟩ := hp
  refine h.bind fun a s'' hrun' => ?_
  rw [hrun] at hrun'
  cases hrun'
  exact hnext a s' rfl hs' hextends (hpost a rfl)

/-- A node is settled by its verdict, which a watched resolution mirrors. -/
structure Follows (engine : Engine) (overlay : Overlay) (Admitted : NodeId → Prop) (w : Watched)
    (p : Pass Value) (q : Watch Value) (node : NodeId) : Prop where
  resolves : Resolves engine overlay Admitted w.state p node
  mirrors : Mirrors w p q

section Lists

variable {resolve : NodeId → Pass Value} {watched : NodeId → Watch Value} {nodes : List NodeId}
  (hs : Sound engine overlay Admitted w.state)
  (hfollows : ∀ m ∈ nodes, ∀ s', Sound engine overlay Admitted s' → Extends w.state s' →
    Follows engine overlay Admitted ⟨s', w.active⟩ (resolve m) (watched m) m)

include hs hfollows

theorem firstFailure_mirrors :
    Mirrors w (firstFailure resolve nodes) (Watch.firstFailure watched nodes) := by
  induction nodes generalizing w with
  | nil => exact .pure none
  | cons node nodes ih =>
    have hnode := hfollows node (by simp) w.state hs (.refl _)
    refine .bind_of_yields hnode.resolves.yields.outcomeOf hnode.mirrors.outcomeOf ?_
    intro r s' _ hs' hextends _
    have hrest : Mirrors ⟨s', w.active⟩ (firstFailure resolve nodes)
        (Watch.firstFailure watched nodes) :=
      ih hs' fun m hm s'' hs'' hextends' =>
        hfollows m (List.mem_cons_of_mem node hm) s'' hs'' (hextends.trans hextends')
    rcases r with (f | fault) | v
    · exact .pure_bind (hrest.bind fun _ _ _ => .pure _)
    · -- Behind a fault nothing is resolved any more.
      exact .throw _
    · exact .pure_bind (hrest.bind fun _ _ _ => .pure _)

theorem resolveAll_mirrors :
    Mirrors w (resolveAll resolve nodes) (Watch.resolveAll watched nodes) := by
  refine (firstFailure_mirrors hs hfollows).bind fun found s' _ => ?_
  cases found with
  | some f => exact .throw _
  | none => exact .pure ()

end Lists

/-- A template and its instances are resolved for the same nodes. -/
theorem evaluateTemplate_mirrors (traps : Traps) (hgraph : engine.graph.Acyclic)
    (hs : Sound engine overlay Admitted w.state) {n : Graph.Node} {r : Resource}
    (hn : engine.graph.node? r.address = some n) (hr : n.declaration = .resource r)
    (hmissing : n.missing = [])
    (hvalued : Valued engine overlay w.state (n.dependencies.map .ofAddress))
    (htemplate : r.multiplicity.isSome = true)
    (hadmitted : ∀ e, engine.expansionOf (engine.verdict overlay) n r = .ok e →
      ∀ key ∈ e.keys, Admitted ⟨r.address, key⟩)
    {resolve : NodeId → Pass Value} {watched : NodeId → Watch Value}
    (hfollows : ∀ key : InstanceKey, ∀ s', Sound engine overlay Admitted s' →
      Extends w.state s' → Admitted ⟨r.address, some key⟩ →
      Follows engine overlay Admitted ⟨s', w.active⟩ (resolve ⟨r.address, some key⟩)
        (watched ⟨r.address, some key⟩) ⟨r.address, some key⟩) :
    Mirrors w (engine.evaluateTemplate resolve r)
      (Watch.evaluateTemplate engine traps watched r) := by
  have hyields := expansionFor_yields hgraph hs hn hr hmissing hvalued
  refine .bind_of_yields hyields
    (.of_runFrom_eq (runFrom_expansionFor traps hgraph hn hr hmissing hvalued)) ?_
  intro e s' hexpansion hs' hextends _
  have hexpansion := ofFault_eq_ok_iff.mp hexpansion
  have hkeys := (keys_of_expansionOf htemplate hexpansion).2
  show Mirrors _ (if e.isDeferred = true then _ else _) (if e.isDeferred = true then _ else _)
  split
  · -- The instances are deferred, which is only noted.
    exact .bind (.lift _) fun _ _ _ => .pure _
  · refine .bind (resolveAll_mirrors hs' fun m hm s'' hs'' hextends' => ?_) fun _ _ _ =>
      .get_bind (.pure _)
    -- Instances of a template with a source all have keys.
    obtain ⟨key, hkey, rfl⟩ := List.mem_map.mp hm
    have hadmitted := hadmitted e hexpansion key hkey
    obtain ⟨key, rfl⟩ := Option.isSome_iff_exists.mp (hkeys key hkey)
    exact hfollows key s'' hs'' (hextends.trans hextends') hadmitted

/-- What a declaration comes to is the same in both scopes. -/
theorem declaration_mirrors (traps : Traps) (hgraph : engine.graph.Acyclic)
    (hs : Sound engine overlay Admitted w.state) {n : Graph.Node} {node : NodeId}
    (hn : engine.graph.node? node.address = some n) (hmissing : n.missing = [])
    (hvalued : Valued engine overlay w.state (n.dependencies.map .ofAddress))
    (hadmitted : ∀ r e, engine.Expands overlay node n r e → ∀ key ∈ e.keys,
      Admitted ⟨node.address, key⟩)
    {resolve : NodeId → Pass Value} {watched : NodeId → Watch Value}
    (hfollows : ∀ key : InstanceKey, node.key = none → ∀ s', Sound engine overlay Admitted s' →
      Extends w.state s' → Admitted ⟨node.address, some key⟩ →
      Follows engine overlay Admitted ⟨s', w.active⟩ (resolve ⟨node.address, some key⟩)
        (watched ⟨node.address, some key⟩) ⟨node.address, some key⟩) :
    Mirrors w (engine.evaluateDeclaration resolve n node (rootScope w.state))
      (Watch.evaluateDeclaration engine traps watched n node (Watch.scope traps w.state)) := by
  have halike := Watch.scope_showAlike traps hvalued
  unfold evaluateDeclaration Watch.evaluateDeclaration
  cases hdeclaration : n.declaration with
  | input v =>
    dsimp only
    rw [inputValue_eq hgraph hn hmissing halike hdeclaration]
    exact .lift _
  | localValue v =>
    dsimp only
    rw [localValue_eq hgraph hn hmissing halike hdeclaration]
    exact .lift _
  | output o =>
    dsimp only
    rw [output_eq hgraph hn hmissing halike hdeclaration]
    exact .lift _
  | resource r =>
    have haddress := address_of_resource hn hdeclaration
    dsimp only
    by_cases htemplate : (node.key.isNone && r.multiplicity.isSome) = true
    · rw [if_pos htemplate, if_pos htemplate]
      have hadmitted := fun e he =>
        hadmitted r e (expands_of_template hn hdeclaration hmissing hvalued htemplate he)
      obtain ⟨hkey, hmultiplicity⟩ := Bool.and_eq_true_iff.mp htemplate
      have hkey := Option.isNone_iff_eq_none.mp hkey
      rw [haddress] at hn hfollows hadmitted
      exact evaluateTemplate_mirrors traps hgraph hs hn hdeclaration hmissing hvalued
        hmultiplicity hadmitted fun key => hfollows key hkey
    · rw [if_neg htemplate, if_neg htemplate]
      rw [haddress] at hn
      exact .of_runFrom_eq
        (runFrom_evaluateInstance traps hgraph hn hdeclaration hmissing hvalued hs node)

/-- The node is above every node that its evaluation resolves. -/
theorem evaluateNode_mirrors (traps : Traps) (hgraph : engine.graph.Acyclic)
    (hclosed : Closed engine overlay Admitted) (hs : Sound engine overlay Admitted w.state)
    {node : NodeId} (hadmitted : Admitted node) {fuel : Nat}
    (hready : ReadyBelow engine w.state fuel node)
    {resolve : NodeId → Pass Value} {watched : NodeId → Watch Value}
    (hfollows : ∀ m s', Sound engine overlay Admitted s' → Extends w.state s' → Admitted m →
      Ready engine s' fuel m → Above engine.graph node m →
      Follows engine overlay Admitted ⟨s', w.active⟩ (resolve m) (watched m) m) :
    Mirrors w (engine.evaluateNode resolve node)
      (Watch.evaluateNode engine traps watched node) := by
  unfold evaluateNode Watch.evaluateNode
  cases hn : engine.graph.node? node.address with
  | none => exact .throw _
  | some n =>
    dsimp only
    cases hmissing : n.missing with
    | cons first others => exact .throw _
    | nil =>
      have hdependencies : ∀ m ∈ n.dependencies.map NodeId.ofAddress, ∀ s',
          Sound engine overlay Admitted s' → Extends w.state s' →
          Follows engine overlay Admitted ⟨s', w.active⟩ (resolve m) (watched m) m := by
        intro m hm s' hs' hextends
        obtain ⟨hm, hready', hrefers⟩ :=
          hready.of_mem_dependencies hgraph hclosed hadmitted hn hmissing hm hextends
        exact hfollows m s' hs' hextends hm hready' (.dependency hrefers)
      refine .bind_of_yields
        (resolveAll_yields hs fun m hm s' hs' hextends =>
          (hdependencies m hm s' hs' hextends).resolves)
        (resolveAll_mirrors hs hdependencies) ?_
      intro _ s' _ hs' hextends hvalued
      -- All dependencies have values by now, and a declaration refers to nothing else.
      have hmentioned : ∀ path ∈ n.declaration.references,
          ∃ v, s'.value? (.ofAddress path.address) = some v := by
        intro path hpath
        have hmem := mem_dependencies_of_mem_references hgraph hn hmissing hpath
        obtain ⟨v, _, hv⟩ := hvalued _ (List.mem_map_of_mem hmem)
        exact ⟨v, hv⟩
      apply Mirrors.demand_bind traps hmentioned
      refine .get_bind (declaration_mirrors traps hgraph hs' hn hmissing hvalued
        (fun r e hexpands key hkey => hclosed node _ hadmitted (.member hexpands hkey)) ?_)
      intro key hkey s'' hs'' hextends' hmember
      exact hfollows _ s'' hs'' (hextends.trans hextends') hmember
        (hready.member hn hvalued hextends' hkey key) (.member hkey key)

/-- A node that is not in progress is in progress while it is evaluated, and no longer. -/
theorem settling_mirrors {node : NodeId} {p : Pass Value} {q : Watch Value}
    (hfree : node ∉ w.active)
    (h : Mirrors ⟨w.state.count node, w.active ++ [node]⟩ p q) :
    Mirrors w (settling node p) (Watch.settling node q) := by
  have hactive : (w.active ++ [node]).filter (· ≠ node) = w.active := by
    rw [List.filter_append, List.filter_eq_self.mpr fun m hm => by
      simpa using ne_of_mem_of_not_mem hm hfree]
    simp
  unfold Mirrors at h ⊢
  dsimp only at h
  unfold Watch.settling
  rw [Watch.run_modify_bind, Watch.run_bind, Watch.run_outcomeOf, h, runFrom_settling]
  dsimp only
  rw [Watch.run_modify_bind]
  dsimp only
  rw [hactive]
  -- Both keep the same outcome, and neither keeps a defect.
  rcases runFrom (w.state.count node) p with ⟨(f | ⟨e | d⟩) | v, s'⟩ <;> rfl

/-- A node that is neither in progress nor in the chain is evaluated if it is not settled. -/
theorem enter_mirrors (traps : Traps) {chain : List NodeId} {node : NodeId} {p : Pass Value}
    {q : Watch Value} (hchain : node ∉ chain) (hfree : node ∉ w.active)
    (h : Table.get? w.state.settled node = none → Mirrors w p q) :
    Mirrors w (settledOr node p) (Watch.enter traps chain node q) := by
  have hchain : chain.contains node = false := by simpa using hchain
  have hfree : w.active.contains node = false := by simpa using hfree
  unfold Mirrors at h ⊢
  unfold settledOr Watch.enter
  rw [runFrom_get_bind, hchain]
  show (match Table.get? w.state.settled node with
    | some (.value v) => pure v
    | some (.failure f) => throw (.unresolved f)
    | none => if w.active.contains node then traps.wait node else q : Watch Value).run w = _
  rw [hfree]
  cases hfound : Table.get? w.state.settled node with
  | none => exact h hfound
  | some outcome => cases outcome <;> rfl

/-- **A node is never resolved while it is in progress, or for its own sake.**  All nodes in progress
and all of the chain are above the node, and so they are above whatever it needs. -/
theorem resolveWithin_follows (traps : Traps) (hgraph : engine.graph.Acyclic)
    (hclosed : Closed engine overlay Admitted) {fuel depth : Nat} {chain : List NodeId}
    {node : NodeId} (hs : Sound engine overlay Admitted w.state) (hadmitted : Admitted node)
    (hready : Ready engine w.state fuel node) (hdepth : fuel ≤ depth)
    (hchain : ∀ m ∈ chain, Above engine.graph m node)
    (hactive : ∀ m ∈ w.active, Above engine.graph m node) :
    Follows engine overlay Admitted w (engine.resolveWithin fuel node)
      (Watch.resolveWithin engine traps depth chain node) node := by
  induction fuel generalizing depth chain node w with
  | zero =>
    refine ⟨resolveWithin_resolves hgraph hclosed hs hadmitted hready, ?_⟩
    cases depth <;>
      exact enter_mirrors traps (Above.not_mem hgraph hchain) (Above.not_mem hgraph hactive)
        fun hunsettled => (hready.false_of_zero hunsettled).elim
  | succ fuel ih =>
    refine ⟨resolveWithin_resolves hgraph hclosed hs hadmitted hready, ?_⟩
    obtain ⟨depth, rfl⟩ : ∃ d, depth = d + 1 := ⟨depth - 1, by omega⟩
    have hfree := Above.not_mem hgraph hactive
    refine enter_mirrors traps (Above.not_mem hgraph hchain) hfree fun hunsettled => ?_
    apply settling_mirrors hfree
    have hcounted : Sound engine overlay Admitted (w.state.count node) := hs.of_eq rfl rfl rfl
    have hbelow : ReadyBelow engine (w.state.count node) fuel node := hready.below hunsettled
    apply evaluateNode_mirrors (w := ⟨w.state.count node, w.active ++ [node]⟩) traps hgraph
      hclosed hcounted hadmitted hbelow
    intro m s' hs' _ hm hready' habove
    apply ih hs' hm hready'
    · omega
    · exact Above.append_self hchain habove
    · exact Above.append_self hactive habove

end Resolutions

end Engine

end Groundplan
