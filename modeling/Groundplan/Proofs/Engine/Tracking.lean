import Groundplan.Proofs.Engine.Completeness
import Groundplan.Proofs.Engine.Watching

/-!
# Tracking What Resolutions Do to States

A resolution makes few kinds of changes: it counts and settles nodes, keeps expansions and notes
deferred ones, and keeps the arguments of instances.  A relation between states that each of them
keeps holds between the states before and after any resolution.  What is known where a change is
made may be used: the state is sound, the dependencies have values, and the node fits, which is a
condition on nodes that passes from a node to all that are resolved for it.

## Main Definitions

- `Engine.Tracks`: a relation that all changes of a resolution keep

## Main Statements

- `Engine.Tracks.resolveWithin`: it holds between the states before and after a resolution
-/

namespace Groundplan

namespace Engine

variable {engine : Engine} {overlay : Overlay} {Admitted : NodeId → Prop} {s s' s'' : State}
  {node : NodeId} {R : State → State → Prop} {Fit : State → NodeId → Prop}

/-- A node stands for one instance of a resource, and not for all of them. -/
structure IsSingle (engine : Engine) (node : NodeId) (n : Graph.Node) (r : Resource) : Prop where
  declared : engine.graph.node? node.address = some n
  resource : n.declaration = .resource r
  single : (node.key.isNone && r.multiplicity.isSome) = false

/-- A relation between states that all changes of a resolution keep, if the nodes that are resolved
fit. -/
structure Tracks (engine : Engine) (overlay : Overlay) (Admitted : NodeId → Prop)
    (R : State → State → Prop) (Fit : State → NodeId → Prop) : Prop where
  refl : ∀ s, R s s
  trans : ∀ {s s' s''}, R s s' → R s' s'' → R s s''
  fit : ∀ {s s' m}, R s s' → Fit s m → Fit s' m
  expand : ∀ s table, R s { s with expansions := table }
  defer : ∀ s address, R s { s with deferred := s.deferred.filter (· ≠ address) ++ [address] }
  single : ∀ {s n r node}, Sound engine overlay Admitted s → engine.IsSingle node n r →
    n.missing = [] → Valued engine overlay s (n.dependencies.map .ofAddress) →
    R s (runFrom s (engine.evaluateInstance r node)).2
  /-- A node that begins fits as little as possible to what it is resolved for. -/
  below : ∀ {s node m}, Fit s node → Table.get? s.settled node = none →
    Above engine.graph node m → Fit (s.count node) m
  settling : ∀ {s node fuel}, Admitted node → Fit s node → Table.get? s.settled node = none →
    Resolves engine overlay Admitted s
      (settling node (engine.evaluateNode (engine.resolveWithin fuel) node)) node →
    R (s.count node)
      (runFrom (s.count node) (engine.evaluateNode (engine.resolveWithin fuel) node)).2 →
    R s (runFrom s (settling node (engine.evaluateNode (engine.resolveWithin fuel) node))).2

/-- A computation settles a node by its verdict, and if the node fits, the relation holds. -/
structure Performs (engine : Engine) (overlay : Overlay) (Admitted : NodeId → Prop)
    (R : State → State → Prop) (Fit : State → NodeId → Prop) (s : State) (p : Pass Value)
    (node : NodeId) : Prop where
  resolves : Resolves engine overlay Admitted s p node
  tracks : Fit s node → R s (runFrom s p).2

namespace Tracks

variable (h : Tracks engine overlay Admitted R Fit)

include h

theorem bind {α β : Type} {p : Pass α} {f : α → Pass β} (hp : R s (runFrom s p).2)
    (hnext : ∀ a s', runFrom s p = (.ok a, s') → R s s' → R s' (runFrom s' (f a)).2) :
    R s (runFrom s (p >>= f)).2 := by
  rw [runFrom_bind]
  generalize hfirst : runFrom s p = first at hp hnext ⊢
  obtain ⟨r, s'⟩ := first
  cases r with
  | error stop => exact hp
  | ok a => exact h.trans hp (hnext a s' rfl hp)

theorem ofOutcome {α : Type} (r : Outcome α) : R s (runFrom s (Engine.ofOutcome r)).2 := by
  cases r <;> exact h.refl s

section Lists

variable {resolve : NodeId → Pass Value} {nodes : List NodeId}
  (hs : Sound engine overlay Admitted s) (hfit : ∀ m ∈ nodes, Fit s m)
  (hperforms : ∀ m ∈ nodes, ∀ s', Sound engine overlay Admitted s' → Extends s s' →
    Performs engine overlay Admitted R Fit s' (resolve m) m)

include hs hfit hperforms

theorem firstFailure : R s (runFrom s (Engine.firstFailure resolve nodes)).2 := by
  induction nodes generalizing s with
  | nil => exact h.refl s
  | cons node nodes ih =>
    obtain ⟨hresolves, htracks⟩ := hperforms node (by simp) s hs (.refl s)
    have htracks := htracks (hfit node (by simp))
    rw [runFrom_firstFailure_cons]
    generalize hfirst : runFrom s (resolve node) = first at htracks ⊢
    obtain ⟨r, s'⟩ := first
    obtain ⟨_, hs', hextends, _⟩ := hresolves.yields.of_run hfirst
    have hrest : R s' (runFrom s' (Engine.firstFailure resolve nodes)).2 :=
      ih hs' (fun m hm => h.fit htracks (hfit m (List.mem_cons_of_mem node hm)))
        fun m hm s'' hs'' hextends' =>
          hperforms m (List.mem_cons_of_mem node hm) s'' hs'' (hextends.trans hextends')
    rcases r with (f | fault) | v
    · exact h.trans htracks hrest
    · exact htracks
    · exact h.trans htracks hrest

theorem resolveAll : R s (runFrom s (Engine.resolveAll resolve nodes)).2 := by
  refine h.bind (h.firstFailure hs hfit hperforms) fun found s' _ _ => ?_
  cases found <;> exact h.refl s'

end Lists

/-- The expansion and the deferral of a template are noted, and its instances are resolved. -/
theorem evaluateTemplate (hgraph : engine.graph.Acyclic) (hs : Sound engine overlay Admitted s)
    {n : Graph.Node} {r : Resource} (hn : engine.graph.node? r.address = some n)
    (hr : n.declaration = .resource r) (hmissing : n.missing = [])
    (hvalued : Valued engine overlay s (n.dependencies.map .ofAddress))
    (htemplate : r.multiplicity.isSome = true)
    (hadmitted : ∀ e, engine.expansionOf (engine.verdict overlay) n r = .ok e →
      ∀ key ∈ e.keys, Admitted ⟨r.address, key⟩)
    (hfit : ∀ key : InstanceKey, Fit s ⟨r.address, some key⟩) {resolve : NodeId → Pass Value}
    (hperforms : ∀ key : InstanceKey, ∀ s', Sound engine overlay Admitted s' → Extends s s' →
      Admitted ⟨r.address, some key⟩ →
      Performs engine overlay Admitted R Fit s' (resolve ⟨r.address, some key⟩)
        ⟨r.address, some key⟩) :
    R s (runFrom s (engine.evaluateTemplate resolve r)).2 := by
  have hyields := expansionFor_yields hgraph hs hn hr hmissing hvalued
  have hexpand : R s (runFrom s (engine.expansionFor r)).2 :=
    expansionFor_preserves (fun t table ht => h.trans ht (h.expand t table)) s (h.refl s)
  refine h.bind hexpand fun e s' hrun htracks => ?_
  obtain ⟨hexpansion, hs', hextends, _⟩ := hyields.of_run hrun
  have hexpansion := ofFault_eq_ok_iff.mp hexpansion.symm
  have hkeys := (keys_of_expansionOf htemplate hexpansion).2
  by_cases hdeferred : e.isDeferred = true
  · rw [if_pos hdeferred]
    exact h.defer s' r.address
  · rw [if_neg hdeferred]
    -- Instances of a template with a source all have keys.
    have hmembers : ∀ m ∈ e.keys.map fun key => (⟨r.address, key⟩ : NodeId),
        ∃ key : InstanceKey, m = ⟨r.address, some key⟩ ∧ Admitted m := by
      intro m hm
      obtain ⟨key, hkey, rfl⟩ := List.mem_map.mp hm
      obtain ⟨named, rfl⟩ := Option.isSome_iff_exists.mp (hkeys key hkey)
      exact ⟨named, rfl, hadmitted e hexpansion _ hkey⟩
    refine h.bind (h.resolveAll hs' (fun m hm => ?_) fun m hm s'' hs'' hextends' => ?_)
      fun _ s'' _ _ => h.refl s''
    · obtain ⟨key, rfl, _⟩ := hmembers m hm
      exact h.fit htracks (hfit key)
    · obtain ⟨key, rfl, hmember⟩ := hmembers m hm
      exact hperforms key s'' hs'' (hextends.trans hextends') hmember

/-- Nothing but the instances of a template is resolved for a declaration whose dependencies have
values. -/
theorem declaration (hgraph : engine.graph.Acyclic) (hs : Sound engine overlay Admitted s)
    {n : Graph.Node} (hn : engine.graph.node? node.address = some n) (hmissing : n.missing = [])
    (hvalued : Valued engine overlay s (n.dependencies.map .ofAddress))
    (hadmitted : ∀ r e, engine.Expands overlay node n r e → ∀ key ∈ e.keys,
      Admitted ⟨node.address, key⟩)
    (hfit : ∀ key : InstanceKey, node.key = none → Fit s ⟨node.address, some key⟩)
    {resolve : NodeId → Pass Value}
    (hperforms : ∀ key : InstanceKey, node.key = none → ∀ s', Sound engine overlay Admitted s' →
      Extends s s' → Admitted ⟨node.address, some key⟩ →
      Performs engine overlay Admitted R Fit s' (resolve ⟨node.address, some key⟩)
        ⟨node.address, some key⟩) (scope : Scope) :
    R s (runFrom s (engine.evaluateDeclaration resolve n node scope)).2 := by
  unfold evaluateDeclaration
  cases hdeclaration : n.declaration with
  | input v => exact h.ofOutcome _
  | localValue v => exact h.ofOutcome _
  | output o => exact h.ofOutcome _
  | resource r =>
    dsimp only
    by_cases htemplate : (node.key.isNone && r.multiplicity.isSome) = true
    · rw [if_pos htemplate]
      have haddress := address_of_resource hn hdeclaration
      have hadmitted := fun e he =>
        hadmitted r e (expands_of_template hn hdeclaration hmissing hvalued htemplate he)
      obtain ⟨hkey, hmultiplicity⟩ := Bool.and_eq_true_iff.mp htemplate
      have hkey := Option.isNone_iff_eq_none.mp hkey
      rw [haddress] at hn hperforms hadmitted hfit
      exact h.evaluateTemplate hgraph hs hn hdeclaration hmissing hvalued hmultiplicity
        hadmitted (fun key => hfit key hkey) fun key => hperforms key hkey
    · rw [if_neg htemplate]
      exact h.single hs ⟨hn, hdeclaration, Bool.eq_false_of_not_eq_true htemplate⟩ hmissing hvalued

/-- What an evaluation resolves is below its node. -/
theorem evaluateNode (hgraph : engine.graph.Acyclic) (hclosed : Closed engine overlay Admitted)
    (hs : Sound engine overlay Admitted s) (hadmitted : Admitted node) {fuel : Nat}
    (hready : ReadyBelow engine s fuel node) (hfit : ∀ m, Above engine.graph node m → Fit s m)
    {resolve : NodeId → Pass Value}
    (hperforms : ∀ m s', Sound engine overlay Admitted s' → Extends s s' → Admitted m →
      Ready engine s' fuel m → Performs engine overlay Admitted R Fit s' (resolve m) m) :
    R s (runFrom s (engine.evaluateNode resolve node)).2 := by
  unfold Engine.evaluateNode
  cases hn : engine.graph.node? node.address with
  | none => exact h.refl s
  | some n =>
    dsimp only
    cases hmissing : n.missing with
    | cons first others => exact h.refl s
    | nil =>
      have hneeded : ∀ m ∈ n.dependencies.map NodeId.ofAddress, ∀ s', Extends s s' →
          Admitted m ∧ Ready engine s' fuel m ∧ engine.graph.Refers node.address m.address :=
        fun m hm s' => hready.of_mem_dependencies hgraph hclosed hadmitted hn hmissing hm
      have hdependencies : ∀ m ∈ n.dependencies.map NodeId.ofAddress, ∀ s',
          Sound engine overlay Admitted s' → Extends s s' →
          Performs engine overlay Admitted R Fit s' (resolve m) m := by
        intro m hm s' hs' hextends
        obtain ⟨hm, hready', _⟩ := hneeded m hm s' hextends
        exact hperforms m s' hs' hextends hm hready'
      have hyields := resolveAll_yields hs fun m hm s' hs' hextends =>
        (hdependencies m hm s' hs' hextends).resolves
      have hall : R s
          (runFrom s (Engine.resolveAll resolve (n.dependencies.map NodeId.ofAddress))).2 :=
        h.resolveAll hs
          (fun m hm => hfit m (.dependency (hneeded m hm s (.refl s)).2.2)) hdependencies
      refine h.bind hall fun _ s' hrun htracks => ?_
      obtain ⟨hrequired, hs', hextends, hvalued⟩ := hyields.of_run hrun
      have hvalued := hvalued () hrequired.symm
      exact h.declaration hgraph hs' hn hmissing hvalued
        (fun r e hexpands key hkey => hclosed node _ hadmitted (.member hexpands hkey))
        (fun key hkey => h.fit htracks (hfit _ (.member hkey key)))
        (fun key hkey s'' hs'' hextends' hmember =>
          hperforms _ s'' hs'' (hextends.trans hextends') hmember
            (hready.member hn hvalued hextends' hkey key))
        (rootScope s')

/-- The relation holds between the states before and after the resolution of a node that fits. -/
theorem resolveWithin (hgraph : engine.graph.Acyclic) (hclosed : Closed engine overlay Admitted)
    {fuel : Nat} (hs : Sound engine overlay Admitted s) (hadmitted : Admitted node)
    (hready : Ready engine s fuel node) (hfit : Fit s node) :
    R s (runFrom s (engine.resolveWithin fuel node)).2 := by
  induction fuel generalizing node s with
  | zero =>
    unfold Engine.resolveWithin settledOr
    rw [runFrom_get_bind]
    rcases hfound : Table.get? s.settled node with _ | v | f
    · exact (hready.false_of_zero hfound).elim
    · exact h.refl s
    · exact h.refl s
  | succ fuel ih =>
    have hresolves := resolveWithin_resolves hgraph hclosed hs hadmitted hready
    unfold Engine.resolveWithin settledOr at hresolves ⊢
    rw [runFrom_get_bind]
    rcases hfound : Table.get? s.settled node with _ | v | f
    · have hsettling : Resolves engine overlay Admitted s (Engine.settling node
          (engine.evaluateNode (engine.resolveWithin fuel) node)) node := by
        unfold Resolves at hresolves ⊢
        rwa [runFrom_get_bind, hfound] at hresolves
      have hcounted : Sound engine overlay Admitted (s.count node) := hs.of_eq rfl rfl rfl
      refine h.settling hadmitted hfit hfound hsettling ?_
      exact h.evaluateNode hgraph hclosed hcounted hadmitted (hready.below hfound)
        (fun m => h.below hfit hfound) fun m s' hs' _ hm hready' =>
          ⟨resolveWithin_resolves hgraph hclosed hs' hm hready', ih hs' hm hready'⟩
    · exact h.refl s
    · exact h.refl s

/-- The relation holds between the states before and after a resolution of a node that fits. -/
theorem resolveNode (hgraph : engine.graph.Acyclic) (hclosed : Closed engine overlay Admitted)
    (hs : Sound engine overlay Admitted s) (hadmitted : Admitted node) (hfit : Fit s node) :
    R s (runFrom s (engine.resolveNode node)).2 := by
  refine h.resolveWithin hgraph hclosed hs hadmitted (.inr (.inl ?_)) hfit
  have hrank := hgraph.rank_le_size node.address
  omega

end Tracks

end Engine

end Groundplan
