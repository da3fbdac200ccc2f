import Groundplan.Proofs.Engine.Verdict

/-!
# Sound States

A state is sound if everything that it keeps is what the verdicts say.  Computations on states
are specified by the result that they come to and by what holds afterwards; all that a sound
state has kept stays as it is while nodes are resolved.

Which nodes may be settled at all is left open by a predicate.  It must hold of all declarations
and of the instances of their expansions.

## Main Definitions

- `Engine.Sound`: what a state keeps is right
- `Engine.Needs`: the nodes that the evaluation of a node resolves
- `Engine.Yields`: a computation keeps the state sound and comes to a given result
- `Engine.Resolves`: a computation settles a node by its verdict

## Main Statements

- `Engine.Yields.bind`: sequences of computations
- `Engine.Sound.settle`: a verdict may be kept
-/

namespace Groundplan

/-- The result that a node has if this has become of it. -/
def Settled.result : Settled → Except Engine.Stop Value
  | .value v => .ok v
  | .failure f => .error (.unresolved f)

theorem Settled.result_injective : Function.Injective Settled.result := by
  intro a b h
  cases a <;> cases b <;> cases h <;> rfl

namespace Engine

/-! ## Sound states -/

/-- The nodes that may be settled: all declarations and the instances of their expansions, and
perhaps others of the same declarations. -/
structure Admits (engine : Engine) (overlay : Overlay) (Admitted : NodeId → Prop) : Prop where
  declared : ∀ node, Admitted node → node.address ∈ engine.graph.addresses
  ofAddress : ∀ address ∈ engine.graph.addresses, Admitted (.ofAddress address)
  ofKey : ∀ n r e, engine.graph.node? r.address = some n → n.declaration = .resource r →
    engine.expansionOf (engine.verdict overlay) n r = .ok e →
    ∀ key ∈ e.keys, Admitted ⟨r.address, key⟩

/-- A template whose dependencies have values makes an expansion. -/
structure Expands (engine : Engine) (overlay : Overlay) (node : NodeId) (n : Graph.Node)
    (r : Resource) (e : Expansion) : Prop where
  template : engine.IsTemplate node n r
  declared : n.missing = []
  required : requireAll (engine.verdict overlay) (n.dependencies.map .ofAddress) = .ok ()
  expansion : engine.expansionOf (engine.verdict overlay) n r = .ok e

/-- What a template expands to is found from its address. -/
theorem Expands.ofAddress {engine : Engine} {overlay : Overlay} {node : NodeId} {n : Graph.Node}
    {r : Resource} {e : Expansion} (h : engine.Expands overlay node n r e) :
    engine.Expands overlay (.ofAddress node.address) n r e :=
  ⟨⟨h.template.declared, h.template.resource, h.template.multiple, rfl⟩, h.declared, h.required,
    h.expansion⟩

/-- The nodes that the evaluation of a node resolves: its dependencies, unless it refers to what
nothing declares, and the instances of its expansion. -/
inductive Needs (engine : Engine) (overlay : Overlay) (node : NodeId) : NodeId → Prop where
  | dependency {n : Graph.Node} {d : String} (declared : engine.graph.node? node.address = some n)
      (complete : n.missing = []) (refers : d ∈ n.dependencies) :
      Needs engine overlay node (.ofAddress d)
  | member {n : Graph.Node} {r : Resource} {e : Expansion} {key : Option InstanceKey}
      (expands : engine.Expands overlay node n r e) (exists_key : key ∈ e.keys) :
      Needs engine overlay node ⟨node.address, key⟩

/-- With a node also those may be settled that it needs. -/
def Closed (engine : Engine) (overlay : Overlay) (Admitted : NodeId → Prop) : Prop :=
  ∀ node m, Admitted node → engine.Needs overlay node m → Admitted m

theorem Admits.closed {engine : Engine} {overlay : Overlay} {Admitted : NodeId → Prop}
    (hgraph : engine.graph.Acyclic) (h : Admits engine overlay Admitted) :
    Closed engine overlay Admitted := by
  intro node m _ hneeds
  cases hneeds with
  | dependency hn _ hd =>
    exact h.ofAddress _ (hgraph.mem_addresses (Graph.refers_iff.mpr ⟨_, hn, hd⟩))
  | member hexpands hkey =>
    have haddress := address_of_resource hexpands.template.declared hexpands.template.resource
    have hn := hexpands.template.declared
    rw [haddress] at hn ⊢
    exact h.ofKey _ _ _ hn hexpands.template.resource hexpands.expansion _ hkey

/-- A template with a value has an expansion, and values for all instances unless they are
deferred. -/
def Aggregated (s : State) (address : String) : Prop :=
  ∃ e, Table.get? s.expansions address = some e
    ∧ (e.isDeferred = false → ∀ key ∈ e.keys, (s.value? ⟨address, key⟩).isSome = true)

/-- Everything that a state keeps is what the verdicts say. -/
structure Sound (engine : Engine) (overlay : Overlay) (Admitted : NodeId → Prop) (s : State) :
    Prop where
  applied : s.applied = overlay
  settled : ∀ node outcome, Table.get? s.settled node = some outcome →
    outcome.result = engine.verdict overlay node
  admitted : ∀ node outcome, Table.get? s.settled node = some outcome → Admitted node
  expansions : ∀ address e, Table.get? s.expansions address = some e →
    ∃ n r, engine.graph.node? address = some n ∧ n.declaration = .resource r
      ∧ engine.expansionOf (engine.verdict overlay) n r = .ok e
  aggregated : ∀ address n r, engine.IsTemplate (.ofAddress address) n r →
    (s.value? (.ofAddress address)).isSome = true → Aggregated s address

/-- Whatever a state has kept is kept by a later one. -/
structure Extends (s s' : State) : Prop where
  settled : ∀ node outcome, Table.get? s.settled node = some outcome →
    Table.get? s'.settled node = some outcome
  expansions : ∀ address e, Table.get? s.expansions address = some e →
    Table.get? s'.expansions address = some e

namespace Extends

theorem refl (s : State) : Extends s s :=
  ⟨fun _ _ h => h, fun _ _ h => h⟩

theorem trans {s s' s'' : State} (h : Extends s s') (h' : Extends s' s'') : Extends s s'' :=
  ⟨fun node outcome hs => h'.settled node outcome (h.settled node outcome hs),
    fun address e hs => h'.expansions address e (h.expansions address e hs)⟩

end Extends

theorem value?_eq_some_iff {s : State} {node : NodeId} {v : Value} :
    s.value? node = some v ↔ Table.get? s.settled node = some (.value v) := by
  unfold State.value?
  split
  · rename_i w hw
    rw [hw]
    simp
  · rename_i hother
    constructor
    · intro h
      cases h
    · intro h
      exact absurd h (hother v)

theorem Extends.value? {s s' : State} (h : Extends s s') {node : NodeId} {v : Value}
    (hv : s.value? node = some v) : s'.value? node = some v :=
  value?_eq_some_iff.mpr (h.settled node _ (value?_eq_some_iff.mp hv))

theorem Aggregated.mono {s s' : State} (h : Extends s s') {address : String}
    (ha : Aggregated s address) : Aggregated s' address := by
  obtain ⟨e, he, hvalues⟩ := ha
  refine ⟨e, h.expansions address e he, fun hdeferred key hkey => ?_⟩
  obtain ⟨v, hv⟩ := Option.isSome_iff_exists.mp (hvalues hdeferred key hkey)
  rw [h.value? hv]
  rfl

section Specification

variable {engine : Engine} {overlay : Overlay} {Admitted : NodeId → Prop} {s s' : State}

namespace Sound

variable (hs : Sound engine overlay Admitted s)

include hs

theorem verdict_of_value? {node : NodeId} {v : Value} (hv : s.value? node = some v) :
    engine.verdict overlay node = .ok v :=
  (hs.settled node _ (value?_eq_some_iff.mp hv)).symm

/-- The expansion that is kept for a resource is the one that the verdicts make. -/
theorem expansionOf_eq {address : String} {n : Graph.Node} {r : Resource} {e : Expansion}
    (hn : engine.graph.node? address = some n) (hr : n.declaration = .resource r)
    (he : Table.get? s.expansions address = some e) :
    engine.expansionOf (engine.verdict overlay) n r = .ok e := by
  obtain ⟨n', r', hn', hr', hexpansion⟩ := hs.expansions address e he
  rw [hn] at hn'
  cases hn'
  rw [hr] at hr'
  cases hr'
  exact hexpansion

/-- States that keep the same are sound together. -/
theorem of_eq (happlied : s'.applied = s.applied) (hsettled : s'.settled = s.settled)
    (hexpansions : s'.expansions = s.expansions) : Sound engine overlay Admitted s' := by
  obtain ⟨settled, expansions, _, _, _, _, _⟩ := s
  obtain ⟨settled', expansions', _, _, _, _, _⟩ := s'
  dsimp only at happlied hsettled hexpansions
  subst happlied hsettled hexpansions
  exact ⟨hs.applied, hs.settled, hs.admitted, hs.expansions, hs.aggregated⟩

/-- A node that has been settled is settled by the same verdict again. -/
theorem extends_settle {node : NodeId} {outcome : Settled}
    (hresult : outcome.result = engine.verdict overlay node) :
    Extends s (s.settle node outcome) := by
  refine ⟨fun m o hm => ?_, fun _ _ he => he⟩
  by_cases hnode : node = m
  · subst hnode
    have hsame : o = outcome :=
      Settled.result_injective ((hs.settled node o hm).trans hresult.symm)
    rw [hsame]
    exact Table.get?_put_self _ _ _
  · exact (Table.get?_put_of_ne _ _ hnode).trans hm

/-- A verdict may be kept. -/
theorem settle {node : NodeId} {outcome : Settled}
    (hresult : outcome.result = engine.verdict overlay node) (hadmitted : Admitted node)
    (htemplate : ∀ n r, engine.IsTemplate node n r → (∃ v, outcome = .value v) →
      Aggregated s node.address) :
    Sound engine overlay Admitted (s.settle node outcome)
      ∧ Extends s (s.settle node outcome) := by
  have hextends := hs.extends_settle hresult
  refine ⟨⟨hs.applied, ?_, ?_, hs.expansions, ?_⟩, hextends⟩
  · intro m o hm
    by_cases hnode : node = m
    · subst hnode
      rw [State.settle, Table.get?_put_self] at hm
      cases hm
      exact hresult
    · rw [State.settle, Table.get?_put_of_ne _ _ hnode] at hm
      exact hs.settled m o hm
  · intro m o hm
    by_cases hnode : node = m
    · exact hnode ▸ hadmitted
    · rw [State.settle, Table.get?_put_of_ne _ _ hnode] at hm
      exact hs.admitted m o hm
  · -- What has been aggregated stays so; the node itself may be a template that becomes it.
    intro address n r hisTemplate hvalue
    refine Aggregated.mono hextends ?_
    by_cases hnode : node = .ofAddress address
    · subst hnode
      refine htemplate n r hisTemplate ?_
      cases outcome with
      | value v => exact ⟨v, rfl⟩
      | failure f =>
        rw [State.value?_settle_failure] at hvalue
        cases hvalue
    · rw [State.value?_settle _ _ hnode] at hvalue
      exact hs.aggregated address n r hisTemplate hvalue

/-- An expansion that the verdicts make may be kept. -/
theorem expand {n : Graph.Node} {r : Resource} {e : Expansion}
    (hfresh : Table.get? s.expansions r.address = none)
    (hn : engine.graph.node? r.address = some n) (hr : n.declaration = .resource r)
    (he : engine.expansionOf (engine.verdict overlay) n r = .ok e) :
    Sound engine overlay Admitted { s with expansions := Table.put s.expansions r.address e }
      ∧ Extends s { s with expansions := Table.put s.expansions r.address e } := by
  have hextends : Extends s { s with expansions := Table.put s.expansions r.address e } := by
    refine ⟨fun _ _ h => h, fun address e' he' => ?_⟩
    by_cases haddress : r.address = address
    · subst haddress
      rw [hfresh] at he'
      cases he'
    · exact (Table.get?_put_of_ne _ _ haddress).trans he'
  refine ⟨⟨hs.applied, hs.settled, hs.admitted, ?_, ?_⟩, hextends⟩
  · intro address e' he'
    by_cases haddress : r.address = address
    · subst haddress
      dsimp only at he'
      rw [Table.get?_put_self] at he'
      cases he'
      exact ⟨n, r, hn, hr, he⟩
    · dsimp only at he'
      rw [Table.get?_put_of_ne _ _ haddress] at he'
      exact hs.expansions address e' he'
  · intro address n' r' htemplate hvalue
    exact (hs.aggregated address n' r' htemplate hvalue).mono hextends

end Sound

/-! ## Specifications of computations -/

/-- What a computation comes to, and the state that it leaves. -/
def runFrom {α : Type} (s : State) (p : Pass α) : Except Stop α × State :=
  p.run s

theorem runFrom_bind {α β : Type} (s : State) (p : Pass α) (f : α → Pass β) :
    runFrom s (p >>= f) = match runFrom s p with
      | (.ok a, s') => runFrom s' (f a)
      | (.error stop, s') => (.error stop, s') := by
  show (match runFrom s p with
    | (r, s') => (ExceptT.bindCont f r).run s') = _
  rcases runFrom s p with ⟨r, s'⟩
  cases r <;> rfl

theorem runFrom_get_bind {α : Type} (s : State) (f : State → Pass α) :
    runFrom s (get >>= f) = runFrom s (f s) :=
  rfl

theorem runFrom_modify_bind {α : Type} (s : State) (change : State → State) (f : Unit → Pass α) :
    runFrom s (modify change >>= f) = runFrom (change s) (f ()) :=
  rfl

theorem runFrom_ofOutcome_bind {α β : Type} (s : State) (r : Outcome α) (f : α → Pass β) :
    runFrom s (ofOutcome r >>= f) = match r with
      | .ok a => runFrom s (f a)
      | .error fault => (.error (.fault fault), s) := by
  cases r <;> rfl

/-- What a computation comes to is a result itself. -/
theorem runFrom_outcomeOf {α : Type} (s : State) (p : Pass α) :
    runFrom s (outcomeOf p) = (.ok (runFrom s p).1, (runFrom s p).2) :=
  rfl

/-- A computation keeps the state sound and comes to a given result; if that is a success, the
postcondition holds. -/
def Yields (engine : Engine) (overlay : Overlay) (Admitted : NodeId → Prop) {α : Type} (s : State)
    (p : Pass α) (r : Except Stop α) (post : α → State → Prop) : Prop :=
  ∃ s', runFrom s p = (r, s') ∧ Sound engine overlay Admitted s' ∧ Extends s s'
    ∧ ∀ a, r = .ok a → post a s'

/-- A computation settles a node by its verdict. -/
def Resolves (engine : Engine) (overlay : Overlay) (Admitted : NodeId → Prop) (s : State)
    (p : Pass Value) (node : NodeId) : Prop :=
  ∃ s', runFrom s p = (engine.verdict overlay node, s') ∧ Sound engine overlay Admitted s'
    ∧ Extends s s' ∧ ∀ outcome : Settled, outcome.result = engine.verdict overlay node →
      Table.get? s'.settled node = some outcome

namespace Yields

variable {α β : Type} {post : α → State → Prop} {post' : β → State → Prop}

theorem pure (hs : Sound engine overlay Admitted s) {a : α} (hpost : post a s) :
    Yields engine overlay Admitted s (Pure.pure a) (.ok a) post := by
  refine ⟨s, rfl, hs, .refl s, fun b hb => ?_⟩
  cases hb
  exact hpost

theorem throw (hs : Sound engine overlay Admitted s) (stop : Stop) :
    Yields engine overlay Admitted s (throw stop) (.error stop) post :=
  ⟨s, rfl, hs, .refl s, nofun⟩

theorem ofOutcome (hs : Sound engine overlay Admitted s) (r : Outcome α) :
    Yields engine overlay Admitted s (Engine.ofOutcome r) (ofFault r) (fun a _ => r = .ok a) := by
  cases r with
  | ok a => exact .pure hs rfl
  | error fault => exact .throw hs (.fault fault)

theorem bind {p : Pass α} {r : Except Stop α} {f : α → Pass β} {g : α → Except Stop β}
    (hp : Yields engine overlay Admitted s p r post)
    (hnext : ∀ a s', Sound engine overlay Admitted s' → Extends s s' → post a s' →
      Yields engine overlay Admitted s' (f a) (g a) post') :
    Yields engine overlay Admitted s (p >>= f) (r >>= g) post' := by
  obtain ⟨s', hrun, hs', hextends, hpost⟩ := hp
  cases r with
  | error stop =>
    refine ⟨s', ?_, hs', hextends, nofun⟩
    rw [runFrom_bind, hrun]
    rfl
  | ok a =>
    obtain ⟨s'', hrun', hs'', hextends', hpost'⟩ := hnext a s' hs' hextends (hpost a rfl)
    refine ⟨s'', ?_, hs'', hextends.trans hextends', hpost'⟩
    rw [runFrom_bind, hrun]
    exact hrun'

/-- A computation that cannot stop passes its result on. -/
theorem bind_ok {p : Pass α} {a : α} {f : α → Pass β} {r : Except Stop β}
    (hp : Yields engine overlay Admitted s p (.ok a) post)
    (hnext : ∀ s', Sound engine overlay Admitted s' → Extends s s' → post a s' →
      Yields engine overlay Admitted s' (f a) r post') :
    Yields engine overlay Admitted s (p >>= f) r post' := by
  obtain ⟨s', hrun, hs', hextends, hpost⟩ := hp
  obtain ⟨s'', hrun', hs'', hextends', hpost'⟩ := hnext s' hs' hextends (hpost a rfl)
  refine ⟨s'', ?_, hs'', hextends.trans hextends', hpost'⟩
  rw [runFrom_bind, hrun]
  exact hrun'

/-- Nothing happens behind a computation that stops. -/
theorem bind_error {p : Pass α} {stop : Stop} {f : α → Pass β}
    (hp : Yields engine overlay Admitted s p (.error stop) post) :
    Yields engine overlay Admitted s (p >>= f) (.error stop) post' := by
  obtain ⟨s', hrun, hs', hextends, _⟩ := hp
  refine ⟨s', ?_, hs', hextends, nofun⟩
  rw [runFrom_bind, hrun]

theorem pure_bind {a : α} {f : α → Pass β} {r : Except Stop β}
    (h : Yields engine overlay Admitted s (f a) r post') :
    Yields engine overlay Admitted s (Pure.pure a >>= f) r post' :=
  h

/-- The state may be read. -/
theorem get_bind {f : State → Pass β} {r : Except Stop β}
    (h : Yields engine overlay Admitted s (f s) r post') :
    Yields engine overlay Admitted s (get >>= f) r post' :=
  h

/-- The state may be changed as long as it stays sound and keeps what it has kept. -/
theorem modify_bind {change : State → State} {p : Pass β} {r : Except Stop β}
    (hextends : Extends s (change s))
    (h : Yields engine overlay Admitted (change s) p r post') :
    Yields engine overlay Admitted s (modify change >>= fun _ => p) r post' := by
  obtain ⟨s', hrun, hs', hextends', hpost⟩ := h
  exact ⟨s', hrun, hs', hextends.trans hextends', hpost⟩

/-- What is neither settled nor expanded nor supplied may be changed freely. -/
theorem modify_aside {change : State → State} {p : Pass β} {r : Except Stop β}
    (hs : Sound engine overlay Admitted s) (happlied : (change s).applied = s.applied)
    (hsettled : (change s).settled = s.settled)
    (hexpansions : (change s).expansions = s.expansions)
    (h : Sound engine overlay Admitted (change s) →
      Yields engine overlay Admitted (change s) p r post') :
    Yields engine overlay Admitted s (modify change >>= fun _ => p) r post' := by
  refine modify_bind ⟨?_, ?_⟩ (h (hs.of_eq happlied hsettled hexpansions))
  · rw [hsettled]
    exact fun _ _ hm => hm
  · rw [hexpansions]
    exact fun _ _ he => he

theorem mono {p : Pass α} {r : Except Stop α} {post' : α → State → Prop}
    (hp : Yields engine overlay Admitted s p r post)
    (hpost : ∀ a s', post a s' → post' a s') :
    Yields engine overlay Admitted s p r post' := by
  obtain ⟨s', hrun, hs', hextends, h⟩ := hp
  exact ⟨s', hrun, hs', hextends, fun a ha => hpost a s' (h a ha)⟩

theorem outcomeOf {p : Pass α} {r : Except Stop α}
    (hp : Yields engine overlay Admitted s p r post) :
    Yields engine overlay Admitted s (Engine.outcomeOf p) (.ok r)
      (fun r s' => ∀ a, r = .ok a → post a s') := by
  obtain ⟨s', hrun, hs', hextends, hpost⟩ := hp
  refine ⟨s', ?_, hs', hextends, ?_⟩
  · rw [runFrom_outcomeOf, hrun]
  · intro r' hr'
    cases hr'
    exact hpost

end Yields

/-- A node that is resolved with a value has that value. -/
theorem Resolves.yields {p : Pass Value} {node : NodeId}
    (h : Resolves engine overlay Admitted s p node) :
    Yields engine overlay Admitted s p (engine.verdict overlay node)
      (fun v s' => s'.value? node = some v) := by
  obtain ⟨s', hrun, hs', hextends, hkept⟩ := h
  refine ⟨s', hrun, hs', hextends, fun v hv => ?_⟩
  exact value?_eq_some_iff.mpr (hkept (.value v) hv.symm)

end Specification

end Engine

end Groundplan
