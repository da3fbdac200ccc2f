import Groundplan.Proofs.Engine.Verdict
import Groundplan.Proofs.Table

/-!
# Verdicts After Attributes Have Been Supplied

Attributes supplied for an instance are put over those that it had.  No other verdict on its
declaration changes, except that a template collects the new value of its instance.

## Main Definitions

- `Engine.supply`: what has been supplied, with more attributes of a node over it
- `Engine.Supplied`: attributes may be supplied for a node

## Main Statements

- `Engine.Supplied.verdict_self`: the instance has the attributes
- `Engine.Supplied.verdict_other`: the verdicts that stay
- `Engine.Supplied.verdict_template`: the template has the values of its instances
-/

namespace Groundplan

namespace Engine

/-- What has been supplied, with more attributes of a node over it. -/
def supply (overlay : Overlay) (node : NodeId) (supplied : Table String Value) : Overlay :=
  Table.put overlay node (Table.putAll ((Table.get? overlay node).getD []) supplied)

theorem supply_of_ne (overlay : Overlay) {node m : NodeId} (supplied : Table String Value)
    (hne : m ≠ node) : Table.get? (supply overlay node supplied) m = Table.get? overlay m :=
  Table.get?_put_of_ne _ _ (Ne.symm hne)

theorem supply_self (overlay : Overlay) (node : NodeId) (supplied : Table String Value) :
    Table.get? (supply overlay node supplied) node
      = some (Table.putAll ((Table.get? overlay node).getD []) supplied) :=
  Table.get?_put_self _ _ _

/-- Every attribute has been supplied once for each node. -/
def Distinct (overlay : Overlay) : Prop :=
  ∀ node, (Table.keys ((Table.get? overlay node).getD [])).Nodup

theorem Distinct.supply {overlay : Overlay} (h : Distinct overlay) (node : NodeId)
    (supplied : Table String Value) : Distinct (supply overlay node supplied) := by
  intro m
  by_cases hm : m = node
  · subst hm
    rw [supply_self]
    exact Table.nodup_keys_putAll _ _ (h m)
  · rw [supply_of_ne _ _ hm]
    exact h m

theorem attributes_putAll (arguments : Table String Value) (computed : List String)
    {applied : Table String Value} (supplied : Table String Value)
    (hdistinct : (Table.keys applied).Nodup) :
    attributes arguments computed (Table.putAll applied supplied)
      = Table.putAll (attributes arguments computed applied) supplied :=
  Table.putAll_putAll supplied hdistinct

/-! ## Results of instances and templates -/

section Results

variable {engine : Engine} {overlay : Overlay} {results results' : NodeId → Except Stop Value}
  {n : Graph.Node} {r : Resource}

theorem conclude_eq_ok_iff {node : NodeId} {result : Except Stop Value} {v : Value} :
    conclude node result = .ok v ↔ result = .ok v := by
  rcases result with (f | ⟨e | d⟩) | w <;> simp [conclude]

theorem expansionOf_congr
    (h : ∀ d ∈ n.dependencies, results (.ofAddress d) = results' (.ofAddress d)) :
    engine.expansionOf results n r = engine.expansionOf results' n r := by
  unfold expansionOf
  rw [scopeOf_congr h]

/-- Of the only instance of a resource the key is known. -/
theorem key_eq_none_of_single {e : Expansion} {key : Option InstanceKey}
    (hsingle : r.multiplicity = none) (he : engine.expansionOf results n r = .ok e)
    (hkey : key ∈ e.keys) : key = none := by
  unfold expansionOf at he
  rw [hsingle] at he
  cases he
  simpa [Expansion.single] using hkey

/-- The value of an instance consists of its attributes. -/
theorem instanceResult_eq_ok_iff {node : NodeId} {e : Expansion} {v : Value} :
    engine.instanceResult overlay results n r node e = .ok v
      ↔ e.isDeferred = false ∧ node.key ∈ e.keys ∧ ∃ arguments,
          argumentValues engine.library
              ((scopeOf results n.dependencies).child (e.bindingsFor node.key)) r.arguments
            = .ok arguments
          ∧ v = .object (attributes arguments r.computed ((Table.get? overlay node).getD [])) := by
  unfold instanceResult
  cases hdeferred : e.isDeferred with
  | true =>
    constructor
    · intro h
      cases h
    · rintro ⟨hfalse, _⟩
      cases hfalse
  | false =>
    by_cases hkey : node.key ∈ e.keys
    · have hcontains : e.keys.contains node.key = true := List.contains_iff_mem.mpr hkey
      rw [hcontains]
      dsimp only
      constructor
      · intro h
        obtain ⟨arguments, harguments, h⟩ := bind_eq_ok_iff.mp h
        cases h
        exact ⟨rfl, hkey, arguments, ofFault_eq_ok_iff.mp harguments, rfl⟩
      · rintro ⟨_, _, arguments, harguments, rfl⟩
        exact bind_eq_ok_iff.mpr ⟨arguments, ofFault_eq_ok_iff.mpr harguments, rfl⟩
    · have hcontains : e.keys.contains node.key = false := by
        simpa using hkey
      rw [hcontains]
      constructor
      · intro h
        cases h
      · rintro ⟨_, hmem, _⟩
        exact absurd hmem hkey

/-- The value of a template whose instances are known is collected from them. -/
theorem templateResult_eq {e : Expansion} (he : engine.expansionOf results n r = .ok e)
    (hdeferred : e.isDeferred = false) :
    engine.templateResult results n r = (do
      requireAll results (e.keys.map fun key => ⟨r.address, key⟩)
      return (aggregateOf (fun m => (results m).toOption) e).getD .unknown) := by
  unfold templateResult
  rw [he]
  show (if e.isDeferred = true then _ else _) = _
  rw [hdeferred]
  rfl

/-- A node has a value only if everything that it needs is declared and has one. -/
theorem required_of_evaluationOf {node : NodeId}
    (hn : engine.graph.node? node.address = some n) {v : Value}
    (h : engine.evaluationOf overlay results node = .ok v) :
    n.missing = [] ∧ requireAll results (n.dependencies.map .ofAddress) = .ok () := by
  unfold evaluationOf at h
  rw [hn] at h
  dsimp only at h
  cases hmissing : n.missing with
  | cons first others =>
    rw [hmissing] at h
    cases h
  | nil =>
    rw [hmissing] at h
    obtain ⟨_, hrequired, _⟩ := bind_eq_ok_iff.mp h
    exact ⟨rfl, hrequired⟩

/-- What a node evaluates to once everything that it needs has a value. -/
theorem evaluationOf_eq {node : NodeId} (hn : engine.graph.node? node.address = some n)
    (hmissing : n.missing = [])
    (hrequired : requireAll results (n.dependencies.map .ofAddress) = .ok ()) :
    engine.evaluationOf overlay results node = engine.declarationResult overlay results n node := by
  unfold evaluationOf
  rw [hn]
  dsimp only
  rw [hmissing]
  dsimp only
  rw [hrequired]
  rfl

/-- Failures do not depend on the values of other nodes. -/
theorem requireAll_congr_of_values {nodes : List NodeId}
    (h : ∀ m ∈ nodes, results m = results' m ∨ ∃ v w, results m = .ok v ∧ results' m = .ok w) :
    requireAll results nodes = requireAll results' nodes := by
  have hfirst : firstFailureOf results nodes = firstFailureOf results' nodes := by
    induction nodes with
    | nil => rfl
    | cons node nodes ih =>
      simp only [firstFailureOf]
      rw [ih fun m hm => h m (List.mem_cons_of_mem node hm)]
      rcases h node (by simp) with hsame | ⟨v, w, hv, hw⟩
      · rw [hsame]
      · rw [hv, hw]
  unfold requireAll
  rw [hfirst]

end Results

/-! ## Supplied attributes -/

/-- Attributes may be supplied for a node that has a value and is a resource but no template. -/
structure Supplied (engine : Engine) (overlay : Overlay) (node : NodeId) (value : Value)
    (n : Graph.Node) (r : Resource) : Prop where
  declared : engine.graph.node? node.address = some n
  resource : n.declaration = .resource r
  single : (node.key.isNone && r.multiplicity.isSome) = false
  verdict : engine.verdict overlay node = .ok value

namespace Supplied

variable {engine : Engine} {overlay : Overlay} {node : NodeId} {value : Value} {n : Graph.Node}
  {r : Resource} (h : engine.Supplied overlay node value n r) (supplied : Table String Value)

include h

theorem evaluation (hgraph : engine.graph.Acyclic) :
    n.missing = []
      ∧ requireAll (engine.verdict overlay) (n.dependencies.map .ofAddress) = .ok ()
      ∧ ∃ e, engine.expansionOf (engine.verdict overlay) n r = .ok e
          ∧ engine.instanceResult overlay (engine.verdict overlay) n r node e = .ok value := by
  have hverdict := h.verdict
  rw [verdict_eq hgraph, conclude_eq_ok_iff] at hverdict
  obtain ⟨hmissing, hrequired⟩ := required_of_evaluationOf h.declared hverdict
  refine ⟨hmissing, hrequired, ?_⟩
  rw [evaluationOf_eq h.declared hmissing hrequired, declarationResult, h.resource] at hverdict
  dsimp only at hverdict
  rw [h.single] at hverdict
  obtain ⟨e, he, hinstance⟩ := bind_eq_ok_iff.mp hverdict
  exact ⟨e, ofFault_eq_ok_iff.mp he, hinstance⟩

omit h in
theorem supply_of_address_ne {m : NodeId} (hm : m.address ≠ node.address) :
    Table.get? overlay m = Table.get? (supply overlay node supplied) m := by
  refine (supply_of_ne _ _ ?_).symm
  rintro rfl
  exact hm rfl

omit h in
/-- The dependencies of what is unrelated to the declaration are unrelated to it, too. -/
theorem verdict_dependency {address d : String}
    (hunrelated : ¬ Relation.TransGen engine.graph.Refers address node.address)
    (hd : engine.graph.Refers address d) :
    engine.verdict overlay (.ofAddress d)
      = engine.verdict (supply overlay node supplied) (.ofAddress d) := by
  refine verdict_eq_of_unrelated (fun m hm => supply_of_address_ne supplied hm) ?_ ?_
  · rintro rfl
    exact hunrelated (.single hd)
  · intro hpath
    exact hunrelated (.head hd hpath)

/-- The verdicts on the dependencies of the declaration stay. -/
theorem verdict_dependencies (hgraph : engine.graph.Acyclic) :
    ∀ d ∈ n.dependencies, engine.verdict overlay (.ofAddress d)
      = engine.verdict (supply overlay node supplied) (.ofAddress d) :=
  fun _ hd => verdict_dependency supplied (hgraph.irreflexive node.address)
    (Graph.refers_iff.mpr ⟨n, h.declared, hd⟩)

/-- The dependencies of the declaration have values still. -/
theorem required (hgraph : engine.graph.Acyclic) :
    requireAll (engine.verdict (supply overlay node supplied))
      (n.dependencies.map .ofAddress) = .ok () := by
  rw [← (h.evaluation hgraph).2.1]
  refine requireAll_congr fun m hm => ?_
  obtain ⟨d, hd, rfl⟩ := List.mem_map.mp hm
  exact (h.verdict_dependencies supplied hgraph d hd).symm

/-- The instance has the supplied attributes over those that it had. -/
theorem verdict_self (hgraph : engine.graph.Acyclic) (hdistinct : Distinct overlay) :
    ∃ fields, value = .object fields
      ∧ engine.verdict (supply overlay node supplied) node
        = .ok (.object (Table.putAll fields supplied)) := by
  obtain ⟨hmissing, _, e, he, hinstance⟩ := h.evaluation hgraph
  obtain ⟨hdeferred, hkey, arguments, harguments, rfl⟩ := instanceResult_eq_ok_iff.mp hinstance
  have hdependencies := h.verdict_dependencies supplied hgraph
  refine ⟨_, rfl, ?_⟩
  -- Its dependencies stay, and so do its expansion and its arguments; only what lies over them
  -- has changed.
  rw [verdict_eq hgraph, conclude_eq_ok_iff,
    evaluationOf_eq h.declared hmissing (h.required supplied hgraph), declarationResult,
    h.resource]
  dsimp only
  rw [h.single]
  refine bind_eq_ok_iff.mpr ⟨e, ?_, ?_⟩
  · rw [ofFault_eq_ok_iff, ← expansionOf_congr hdependencies]
    exact he
  · refine instanceResult_eq_ok_iff.mpr ⟨hdeferred, hkey, arguments, ?_, ?_⟩
    · rw [← scopeOf_congr hdependencies]
      exact harguments
    · rw [supply_self, Option.getD_some, attributes_putAll _ _ _ (hdistinct node)]

omit h in
/-- No other instance changes, and neither does a node that is none. -/
theorem verdict_other (hgraph : engine.graph.Acyclic) {m : NodeId}
    (haddress : m.address = node.address) (hm : m ≠ node) (hkey : m.key.isSome = true) :
    engine.verdict overlay m = engine.verdict (supply overlay node supplied) m := by
  rw [verdict_eq hgraph, verdict_eq hgraph]
  congr 1
  refine evaluationOf_congr ?_ ?_ (supply_of_ne _ _ hm).symm
  · intro d hd
    rw [haddress] at hd
    exact verdict_dependency supplied (hgraph.irreflexive node.address) hd
  · -- A node with a key is no template, and needs no instances.
    intro n' r' htemplate
    rw [htemplate.whole] at hkey
    cases hkey

/-- Whether an instance of the declaration has a value stays the same. -/
theorem verdict_instance (hgraph : engine.graph.Acyclic) (hdistinct : Distinct overlay)
    (key : InstanceKey) :
    engine.verdict overlay ⟨node.address, some key⟩
        = engine.verdict (supply overlay node supplied) ⟨node.address, some key⟩
      ∨ ∃ v w, engine.verdict overlay ⟨node.address, some key⟩ = .ok v
          ∧ engine.verdict (supply overlay node supplied) ⟨node.address, some key⟩ = .ok w := by
  by_cases hnode : (⟨node.address, some key⟩ : NodeId) = node
  · obtain ⟨fields, _, hverdict⟩ := h.verdict_self supplied hgraph hdistinct
    rw [hnode]
    exact .inr ⟨_, _, h.verdict, hverdict⟩
  · exact .inl (verdict_other supplied hgraph rfl hnode rfl)

/-- A keyed node with a value belongs to a template. -/
theorem multiple (hgraph : engine.graph.Acyclic) (hkey : node.key.isSome = true) :
    r.multiplicity.isSome = true := by
  obtain ⟨_, _, e, he, hinstance⟩ := h.evaluation hgraph
  obtain ⟨_, hmem, _⟩ := instanceResult_eq_ok_iff.mp hinstance
  cases hmultiplicity : r.multiplicity with
  | some _ => rfl
  | none =>
    rw [key_eq_none_of_single hmultiplicity he hmem] at hkey
    cases hkey

/-- A template with a value collects the values of its instances; the failure of one without a
value stays. -/
theorem verdict_template (hgraph : engine.graph.Acyclic) (hdistinct : Distinct overlay)
    (hkey : node.key.isSome = true) :
    (∃ e v, engine.expansionOf (engine.verdict overlay) n r = .ok e ∧ e.isDeferred = false
        ∧ engine.verdict overlay (.ofAddress node.address) = .ok v
        ∧ engine.verdict (supply overlay node supplied) (.ofAddress node.address)
          = .ok ((aggregateOf
              (fun m => (engine.verdict (supply overlay node supplied) m).toOption) e).getD
                .unknown))
      ∨ ∃ stop, engine.verdict overlay (.ofAddress node.address) = .error stop
          ∧ engine.verdict (supply overlay node supplied) (.ofAddress node.address)
            = .error stop := by
  obtain ⟨hmissing, hrequired, e, he, hinstance⟩ := h.evaluation hgraph
  obtain ⟨hdeferred, _⟩ := instanceResult_eq_ok_iff.mp hinstance
  have haddress := address_of_resource h.declared h.resource
  have he' := (expansionOf_congr (h.verdict_dependencies supplied hgraph)).symm.trans he
  have hmultiple := h.multiple hgraph hkey
  obtain ⟨_, hkeys⟩ := keys_of_expansionOf hmultiple he
  -- What fails among the instances fails before and after, and with the same failure.
  have hinstances : requireAll (engine.verdict overlay) (e.keys.map fun key => ⟨r.address, key⟩)
      = requireAll (engine.verdict (supply overlay node supplied))
          (e.keys.map fun key => ⟨r.address, key⟩) := by
    refine requireAll_congr_of_values fun m hm => ?_
    obtain ⟨key, hkey, rfl⟩ := List.mem_map.mp hm
    obtain ⟨key, rfl⟩ := Option.isSome_iff_exists.mp (hkeys key hkey)
    rw [← haddress]
    exact h.verdict_instance supplied hgraph hdistinct key
  have hresult : ∀ o results, requireAll results (n.dependencies.map .ofAddress) = .ok () →
      engine.evaluationOf o results (.ofAddress node.address)
        = engine.templateResult results n r := by
    intro o results hrequired
    have hdeclared : engine.graph.node? (NodeId.ofAddress node.address).address = some n :=
      h.declared
    rw [evaluationOf_eq hdeclared hmissing hrequired, declarationResult, h.resource]
    dsimp only
    rw [hmultiple]
    rfl
  have hverdict := verdict_eq hgraph overlay (.ofAddress node.address)
  have hverdict' := verdict_eq hgraph (supply overlay node supplied) (.ofAddress node.address)
  rw [hresult _ _ hrequired, templateResult_eq he hdeferred] at hverdict
  rw [hresult _ _ (h.required supplied hgraph), templateResult_eq he' hdeferred, ← hinstances]
    at hverdict'
  cases hall : requireAll (engine.verdict overlay) (e.keys.map fun key => ⟨r.address, key⟩) with
  | ok _ =>
    have hconclude : ∀ m (v : Value),
        conclude m (do Except.ok (); return v) = .ok v := fun _ _ => rfl
    rw [hall, hconclude] at hverdict hverdict'
    exact .inl ⟨e, _, he, hdeferred, hverdict, hverdict'⟩
  | error stop =>
    -- The failure of an instance is passed on to the template.
    obtain ⟨stop', hconclude⟩ : ∃ stop', ∀ v : Value,
        conclude (.ofAddress node.address) (do Except.error stop; return v) = .error stop' := by
      rcases stop with f | ⟨e | d⟩
      · exact ⟨_, fun _ => rfl⟩
      · exact ⟨_, fun _ => rfl⟩
      · exact ⟨_, fun _ => rfl⟩
    rw [hall, hconclude] at hverdict hverdict'
    exact .inr ⟨stop', hverdict, hverdict'⟩

end Supplied

end Engine

end Groundplan
