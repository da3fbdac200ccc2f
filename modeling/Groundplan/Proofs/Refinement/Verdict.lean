import Groundplan.Proofs.Engine.Supply
import Groundplan.Proofs.Refinement.Evaluation
import Groundplan.Proofs.Refinement.Expansion

/-!
# Refined Verdicts

When the value of one node is refined, so are those of all nodes that depend on it: a node that
had a value has none any more or a refined one, and a node that had none gets none.  This lifts
the conservativity of unknown from expressions to declarations.  An instance that does not exist
while its template is deferred may come into being later, and is left out.

## Main Definitions

- `Engine.Exists`: the nodes that a run reaches

## Main Statements

- `Engine.evaluationOf_foresees`: what the evaluation of one node foresees
- `Engine.verdict_foresees`: what verdicts foresee, by induction on the height of a node
-/

namespace Groundplan

namespace Engine

open Value

variable {engine : Engine} {overlay overlay' : Overlay}
  {results results' : NodeId → Except Stop Value}

/-! ## Scopes and requirements -/

theorem ofFault_foresees {α β : Type} {R : α → β → Prop} {x : Outcome α} {y : Outcome β}
    (h : Foresees R x y) : Foresees R (ofFault x) (ofFault y) := by
  intro b hb
  obtain ⟨a, ha, hab⟩ := h b (ofFault_eq_ok_iff.mp hb)
  exact ⟨a, ofFault_eq_ok_iff.mpr ha, hab⟩

theorem conclude_foresees {R : Value → Value → Prop} (node : NodeId) {x y : Except Stop Value}
    (h : Foresees R x y) : Foresees R (conclude node x) (conclude node y) := by
  intro w hw
  obtain ⟨v, hv, hvw⟩ := h w (conclude_eq_ok_iff.mp hw)
  exact ⟨v, conclude_eq_ok_iff.mpr hv, hvw⟩

/-- Declarations are seen by refined values. -/
theorem scopeOf_refines {dependencies : List String}
    (h : ∀ d ∈ dependencies, Foresees Value.RefinedBy (results (.ofAddress d))
      (results' (.ofAddress d))) :
    Scope.RefinedBy (scopeOf results dependencies) (scopeOf results' dependencies) := by
  intro path span w hw
  unfold scopeOf at hw ⊢
  rw [lookup_scopeSeeing] at hw ⊢
  by_cases hpath : (path.kind.isReferenceable && dependencies.contains path.address) = true
  · rw [if_pos hpath] at hw ⊢
    obtain ⟨_, hmem⟩ := Bool.and_eq_true_iff.mp hpath
    -- A symbol that is seen later has been seen before, with a value that is refined.
    cases hlater : results' (.ofAddress path.address) with
    | error stop =>
      rw [hlater] at hw
      cases hw
    | ok w' =>
      rw [hlater] at hw
      cases hw
      obtain ⟨v, hv, hvw⟩ := h path.address (List.contains_iff_mem.mp hmem) _ hlater
      rw [hv]
      exact ⟨v, rfl, hvw⟩
  · rw [if_neg hpath] at hw
    cases hw

theorem requireAll_foresees {nodes : List NodeId}
    (h : ∀ m ∈ nodes, Foresees Value.RefinedBy (results m) (results' m)) :
    Foresees (fun _ _ => ∀ m ∈ nodes, ∃ v w, results m = .ok v ∧ results' m = .ok w
      ∧ Value.RefinedBy v w) (requireAll results nodes) (requireAll results' nodes) := by
  intro _ hlater
  have hvalues : ∀ m ∈ nodes, ∃ v w, results m = .ok v ∧ results' m = .ok w
      ∧ Value.RefinedBy v w := by
    intro m hm
    obtain ⟨w, hw⟩ := requireAll_eq_ok_iff.mp hlater m hm
    obtain ⟨v, hv, hvw⟩ := h m hm w hw
    exact ⟨v, w, hv, hw, hvw⟩
  refine ⟨(), requireAll_eq_ok_iff.mpr fun m hm => ?_, hvalues⟩
  obtain ⟨v, _, hv, _⟩ := hvalues m hm
  exact ⟨v, hv⟩

/-! ## Declarations -/

section Declarations

variable {scope scope' : Scope} {n : Graph.Node}

/-- What a library and the expressions of a batch need for verdicts to be refined. -/
structure Conservative (engine : Engine) : Prop where
  library : ∀ f ∈ engine.library, f.Foreseeing
  expressions : ∀ n ∈ engine.graph.nodes, ∀ entry ∈ n.declaration.expressions,
    AbsorbsNothing entry.2.calls

variable (hlibrary : ∀ f ∈ engine.library, f.Foreseeing)

include hlibrary

/-- Conditions that hold of a value held while less was known. -/
theorem checkValidations_foresees (v : InputVariable) (hscope : Scope.RefinedBy scope scope')
    {rules : List Validation} (hcalls : ∀ rule ∈ rules, AbsorbsNothing rule.condition.calls) :
    Foresees Eq (checkValidations engine.library v scope rules)
      (checkValidations engine.library v scope' rules) := by
  induction rules with
  | nil => exact .ok rfl
  | cons rule rules ih =>
    have ih := ih fun r hr => hcalls r (List.mem_cons_of_mem rule hr)
    have hcondition := Expr.evaluate_foresees hlibrary rule.condition hscope
      (hcalls rule List.mem_cons_self)
    unfold checkValidations
    refine hcondition.bind fun c d hcd => ?_
    cases hcd with
    | unknown d =>
      -- An unknown condition counts as satisfied, and whatever it becomes, it may only refuse.
      cases d with
      | unknown => exact ih
      | bool b =>
        cases b with
        | true => exact ih
        | false => exact .error _ _
      | null | number | string | list | set | map | object => exact .error _ _
    | bool b =>
      cases b with
      | true => exact ih
      | false => exact .error _ _
    | null | number | string | set | list | map | object => exact .error _ _

/-- The value of an input variable does not depend on the scope; only its conditions do. -/
theorem inputValue_foresees (v : InputVariable) (hscope : Scope.RefinedBy scope scope')
    (hcalls : ∀ rule ∈ v.validations, AbsorbsNothing rule.condition.calls) :
    Foresees Value.RefinedBy (engine.inputValue v scope) (engine.inputValue v scope') := by
  have hchecked : ∀ value, Foresees Value.RefinedBy
      (checkValidations engine.library v
        (scope.child [((Declaration.input v).symbol, value)]) v.validations >>= fun _ => .ok value)
      (checkValidations engine.library v
        (scope'.child [((Declaration.input v).symbol, value)]) v.validations
          >>= fun _ => .ok value) := by
    intro value
    have hchild := hscope.child (.cons ((Declaration.input v).symbol) (.refl value) .nil)
    exact (checkValidations_foresees hlibrary v hchild hcalls).bind fun _ _ _ => .ok (.refl value)
  unfold inputValue
  dsimp only
  split
  · refine .guard fun given _ => ?_
    split
    · exact .guard fun value _ => hchecked value
    · exact hchecked given
  · exact .error _ _

theorem argumentValues_foresees (hscope : Scope.RefinedBy scope scope')
    {arguments : List (String × Expr)}
    (hcalls : ∀ entry ∈ arguments, AbsorbsNothing entry.2.calls) :
    Foresees (Table.Related Value.RefinedBy) (argumentValues engine.library scope arguments)
      (argumentValues engine.library scope' arguments) := by
  induction arguments with
  | nil => exact .ok .nil
  | cons entry rest ih =>
    have hentry := Expr.evaluate_foresees hlibrary entry.2 hscope (hcalls entry List.mem_cons_self)
    refine hentry.bind fun v w hvw => ?_
    refine (ih fun e he => hcalls e (List.mem_cons_of_mem entry he)).bind fun vs ws hvsws => ?_
    exact .ok (.cons entry.1 hvw hvsws)

/-- The expansion of a resource in a refined scope. -/
theorem expansionOf_foresees {r : Resource}
    (hscope : Scope.RefinedBy (scopeOf results n.dependencies) (scopeOf results' n.dependencies))
    (hcalls : ∀ e, r.multiplicity = some e → AbsorbsNothing e.calls) :
    Foresees Expansion.RefinedBy (engine.expansionOf results n r)
      (engine.expansionOf results' n r) := by
  unfold expansionOf
  cases hmultiplicity : r.multiplicity with
  | none => exact .ok (.refl _)
  | some e =>
    have hsource := Expr.evaluate_foresees hlibrary e hscope (hcalls e hmultiplicity)
    simp only [Option.mapM_some]
    refine Foresees.bind (R := fun s t => ∃ v w, s = some v ∧ t = some w ∧ Value.RefinedBy v w)
      ?_ ?_
    · exact hsource.bind fun v w hvw => .ok ⟨v, w, rfl, rfl, hvw⟩
    · rintro _ _ ⟨v, w, rfl, rfl, hvw⟩
      exact Expansion.ofValue_foresees _ _ _ hvw

omit hlibrary in
/-- Attributes are refined with the arguments among them. -/
theorem attributes_refines {arguments arguments' : Table String Value}
    (h : Table.Related Value.RefinedBy arguments arguments') (computed : List String)
    (applied : Table String Value) :
    Table.Related Value.RefinedBy (attributes arguments computed applied)
      (attributes arguments' computed applied) := by
  unfold attributes
  refine Table.Related.putAll ?_ (.refl Value.RefinedBy.refl applied)
  induction computed generalizing arguments arguments' with
  | nil => exact h
  | cons name computed ih =>
    rw [List.foldl_cons, List.foldl_cons]
    refine ih ?_
    rw [h.has_eq name]
    split
    · exact h
    · exact h.put name (.unknown _)

end Declarations

/-! ## Instances and templates -/

section Resources

variable {n : Graph.Node} {r : Resource}

/-- What is made of entries by their keys alone is refined with their values. -/
theorem zip_filterMap_refines {select : Option InstanceKey × Value → Option (String × Value)}
    (hentry : ∀ key v w, (select (key, v) = none ∧ select (key, w) = none)
      ∨ ∃ name, select (key, v) = some (name, v) ∧ select (key, w) = some (name, w))
    {keys : List (Option InstanceKey)} {vs ws : List Value} (h : ItemsRefinedBy vs ws) :
    FieldsRefinedBy ((keys.zip vs).filterMap select) ((keys.zip ws).filterMap select) := by
  induction keys generalizing vs ws with
  | nil => exact .nil
  | cons key keys ih =>
    cases h with
    | nil => exact .nil
    | @cons v w vs ws hvw hitems =>
      have hrest := ih hitems
      rw [List.zip_cons_cons, List.zip_cons_cons]
      rcases hentry key v w with ⟨hv, hw⟩ | ⟨name, hv, hw⟩
      · rw [List.filterMap_cons_none hv, List.filterMap_cons_none hw]
        exact hrest
      · rw [List.filterMap_cons_some hv, List.filterMap_cons_some hw]
        exact .cons hvw hrest

/-- The values of instances are collected place by place. -/
theorem aggregateOf_refines {value? value?' : NodeId → Option Value} {e e' : Expansion}
    (haddress : e'.address = e.address) (hmode : e'.mode = e.mode) (hkeys : e'.keys = e.keys)
    (hvalues : ∀ key ∈ e.keys, ∃ v w, value? ⟨e.address, key⟩ = some v
      ∧ value?' ⟨e.address, key⟩ = some w ∧ Value.RefinedBy v w) :
    ∃ v w, aggregateOf value? e = some v ∧ aggregateOf value?' e' = some w
      ∧ Value.RefinedBy v w := by
  have hall : ∀ keys : List (Option InstanceKey), (∀ key ∈ keys, key ∈ e.keys) →
      ∃ vs ws, keys.mapM (fun key => value? ⟨e.address, key⟩) = some vs
        ∧ keys.mapM (fun key => value?' ⟨e.address, key⟩) = some ws ∧ ItemsRefinedBy vs ws := by
    intro keys hsubset
    induction keys with
    | nil => exact ⟨[], [], rfl, rfl, .nil⟩
    | cons key keys ih =>
      obtain ⟨v, w, hv, hw, hvw⟩ := hvalues key (hsubset key List.mem_cons_self)
      obtain ⟨vs, ws, hvs, hws, hitems⟩ := ih fun k hk => hsubset k (List.mem_cons_of_mem key hk)
      refine ⟨v :: vs, w :: ws, ?_, ?_, .cons hvw hitems⟩
      · simp [List.mapM_cons, hv, hvs]
      · simp [List.mapM_cons, hw, hws]
  obtain ⟨vs, ws, hvs, hws, hitems⟩ := hall e.keys fun _ h => h
  unfold aggregateOf
  rw [haddress, hmode, hkeys, hvs, hws]
  by_cases hcount : e.mode = .count
  · exact ⟨.list vs, .list ws, if_pos hcount, if_pos hcount, .list hitems⟩
  · refine ⟨_, _, if_neg hcount, if_neg hcount, .map (zip_filterMap_refines ?_ hitems)⟩
    -- Only names become keys of the collected map.
    rintro (_ | (index | name)) v w
    · exact .inl ⟨rfl, rfl⟩
    · exact .inl ⟨rfl, rfl⟩
    · exact .inr ⟨name, rfl, rfl⟩

/-- A template whose instances are refined is refined. -/
theorem templateResult_foresees
    (hexpansion : Foresees Expansion.RefinedBy (engine.expansionOf results n r)
      (engine.expansionOf results' n r))
    (hmultiple : r.multiplicity.isSome = true)
    (hinstances : ∀ e, engine.expansionOf results n r = .ok e → ∀ key ∈ e.keys,
      Foresees Value.RefinedBy (results ⟨r.address, key⟩) (results' ⟨r.address, key⟩)) :
    Foresees Value.RefinedBy (engine.templateResult results n r)
      (engine.templateResult results' n r) := by
  intro w hw
  unfold templateResult at hw
  obtain ⟨e', he', hw⟩ := bind_eq_ok_iff.mp hw
  obtain ⟨e, he, hrefined⟩ := hexpansion e' (ofFault_eq_ok_iff.mp he')
  cases hdeferred : e.isDeferred with
  | true =>
    -- While its instances are deferred, the template is unknown, and may become anything.
    refine ⟨.unknown, ?_, .unknown w⟩
    unfold templateResult
    rw [he]
    show (if e.isDeferred = true then _ else _) = _
    rw [hdeferred]
    rfl
  | false =>
    -- Both sides collect the same instances.
    obtain ⟨haddress, hmode, hkeys⟩ := hrefined.eq_of_known hdeferred
    have hdeferred' : e'.isDeferred = false := by
      unfold Expansion.isDeferred at hdeferred ⊢
      rw [hmode]
      exact hdeferred
    rw [hdeferred', hkeys] at hw
    obtain ⟨_, hrequired, hw⟩ := bind_eq_ok_iff.mp hw
    cases hw
    have hforesees : ∀ m ∈ e.keys.map fun key => (⟨r.address, key⟩ : NodeId),
        Foresees Value.RefinedBy (results m) (results' m) := by
      intro m hm
      obtain ⟨key, hkey, rfl⟩ := List.mem_map.mp hm
      exact hinstances e he key hkey
    obtain ⟨_, hbefore, hvalues⟩ := requireAll_foresees hforesees _ hrequired
    obtain ⟨haddress', _⟩ := keys_of_expansionOf hmultiple he
    obtain ⟨v, w, hv, hw, hvw⟩ : ∃ v w, aggregateOf (fun m => (results m).toOption) e = some v
        ∧ aggregateOf (fun m => (results' m).toOption) e' = some w ∧ Value.RefinedBy v w := by
      refine aggregateOf_refines haddress hmode hkeys fun key hkey => ?_
      obtain ⟨v, w, hv, hw, hvw⟩ := hvalues ⟨r.address, key⟩ (List.mem_map.mpr ⟨key, hkey, rfl⟩)
      rw [haddress', hv, hw]
      exact ⟨v, w, rfl, rfl, hvw⟩
    refine ⟨v, ?_, ?_⟩
    · rw [templateResult_eq he hdeferred, hbefore, hv]
      rfl
    · rw [hw]
      exact hvw

/-- An instance that exists is refined with its arguments. -/
theorem instanceResult_foresees (hlibrary : ∀ f ∈ engine.library, f.Foreseeing) {node : NodeId}
    {e e' : Expansion} (hrefined : Expansion.RefinedBy e e') (hknown : e.isDeferred = false)
    (hscope : Scope.RefinedBy (scopeOf results n.dependencies) (scopeOf results' n.dependencies))
    (hcalls : ∀ entry ∈ r.arguments, AbsorbsNothing entry.2.calls)
    (hoverlay : Table.get? overlay node = Table.get? overlay' node) :
    Foresees Value.RefinedBy (engine.instanceResult overlay results n r node e)
      (engine.instanceResult overlay' results' n r node e') := by
  intro w hw
  obtain ⟨_, hkey, arguments', harguments', rfl⟩ := instanceResult_eq_ok_iff.mp hw
  obtain ⟨_, _, hkeys⟩ := hrefined.eq_of_known hknown
  have hchild := hscope.child (hrefined.bindingsFor hknown node.key)
  obtain ⟨arguments, harguments, hrefines⟩ :=
    argumentValues_foresees hlibrary hchild hcalls arguments' harguments'
  rw [hkeys] at hkey
  refine ⟨_, instanceResult_eq_ok_iff.mpr ⟨hknown, hkey, arguments, harguments, rfl⟩, ?_⟩
  rw [← hoverlay]
  exact .object (fieldsRefinedBy_iff.mpr (attributes_refines hrefines _ _))

end Resources

/-! ## Nodes -/

/-- A node exists if it is a declaration as a whole, or one of the instances that its template
has. -/
def Exists (engine : Engine) (overlay : Overlay) (node : NodeId) : Prop :=
  node.address ∈ engine.graph.addresses
    ∧ (node.key = none ∨ ∃ n r e, engine.graph.node? node.address = some n
        ∧ n.declaration = .resource r ∧ engine.expansionOf (engine.verdict overlay) n r = .ok e
        ∧ node.key ∈ e.keys)

/-- The instances of a template are known where one of them exists. -/
theorem Exists.known {node : NodeId} {n : Graph.Node} {r : Resource} {e : Expansion}
    (h : engine.Exists overlay node) (hn : engine.graph.node? node.address = some n)
    (hr : n.declaration = .resource r)
    (hsingle : (node.key.isNone && r.multiplicity.isSome) = false)
    (he : engine.expansionOf (engine.verdict overlay) n r = .ok e) : e.isDeferred = false := by
  cases hdeferred : e.isDeferred with
  | false => rfl
  | true =>
    obtain ⟨hmultiple, hkeys⟩ := keys_of_isDeferred he hdeferred
    rcases h.2 with hkey | ⟨n', r', e', hn', hr', he', hkey⟩
    · rw [hkey, hmultiple] at hsingle
      cases hsingle
    · rw [hn] at hn'
      cases hn'
      rw [hr] at hr'
      cases hr'
      rw [he] at he'
      cases he'
      rw [hkeys] at hkey
      cases hkey

section Nodes

variable (hconservative : Conservative engine) {node : NodeId} {n : Graph.Node}
  (hn : engine.graph.node? node.address = some n)
  (hinstances : ∀ r e, engine.IsTemplate node n r →
    engine.expansionOf results n r = .ok e → ∀ key ∈ e.keys,
    Foresees Value.RefinedBy (results ⟨node.address, key⟩) (results' ⟨node.address, key⟩))
  (hknown : ∀ r e, n.declaration = .resource r →
    (node.key.isNone && r.multiplicity.isSome) = false →
    engine.expansionOf results n r = .ok e → e.isDeferred = false)
  (hoverlay : Table.get? overlay node = Table.get? overlay' node)

include hconservative hn hinstances hknown hoverlay

/-- What a declaration foresees in a refined scope. -/
theorem declarationResult_foresees
    (hscope : Scope.RefinedBy (scopeOf results n.dependencies)
      (scopeOf results' n.dependencies)) :
    Foresees Value.RefinedBy (engine.declarationResult overlay results n node)
      (engine.declarationResult overlay' results' n node) := by
  have hlibrary := hconservative.library
  have hcalls := hconservative.expressions n (Graph.mem_of_node? hn).1
  unfold declarationResult
  dsimp only
  cases hdeclaration : n.declaration with
  | input v =>
    rw [hdeclaration] at hcalls
    refine ofFault_foresees (inputValue_foresees hlibrary v hscope fun rule hrule => ?_)
    obtain ⟨role, hexpression⟩ := exists_expression_of_mem_validations hrule
    exact hcalls _ hexpression
  | localValue v =>
    rw [hdeclaration] at hcalls
    exact ofFault_foresees (Expr.evaluate_foresees hlibrary _ hscope
      (hcalls ("value", v.expression) List.mem_cons_self))
  | output o =>
    rw [hdeclaration] at hcalls
    exact ofFault_foresees (Expr.evaluate_foresees hlibrary _ hscope
      (hcalls ("value", o.expression) List.mem_cons_self))
  | resource r =>
    rw [hdeclaration] at hcalls
    have hmultiplicity : ∀ e, r.multiplicity = some e → AbsorbsNothing e.calls := by
      intro e he
      exact hcalls ("multiplicity", e) (List.mem_append_left _ (by simp [he]))
    have hexpansion := expansionOf_foresees hlibrary hscope hmultiplicity
    dsimp only
    cases hwhole : node.key.isNone && r.multiplicity.isSome with
    | true =>
      obtain ⟨hkey, hmultiple⟩ := Bool.and_eq_true_iff.mp hwhole
      have htemplate : engine.IsTemplate node n r :=
        ⟨hn, hdeclaration, hmultiple, Option.isNone_iff_eq_none.mp hkey⟩
      refine templateResult_foresees hexpansion hmultiple fun e he => ?_
      rw [← address_of_resource hn hdeclaration]
      exact hinstances r e htemplate he
    | false =>
      intro w hw
      obtain ⟨e', he', hw⟩ := bind_eq_ok_iff.mp hw
      obtain ⟨e, he, hrefined⟩ := hexpansion e' (ofFault_eq_ok_iff.mp he')
      have hinstance := instanceResult_foresees hlibrary hrefined
        (hknown r e hdeclaration hwhole he) hscope
        (fun entry hentry => hcalls entry (List.mem_append_right _ hentry)) hoverlay
      obtain ⟨v, hv, hvw⟩ := hinstance w hw
      exact ⟨v, bind_eq_ok_iff.mpr ⟨e, ofFault_eq_ok_iff.mpr he, hv⟩, hvw⟩

/-- What the evaluation of a node foresees, given what is foreseen of the nodes that it needs. -/
theorem evaluationOf_foresees
    (hdependencies : ∀ d ∈ n.dependencies,
      Foresees Value.RefinedBy (results (.ofAddress d)) (results' (.ofAddress d))) :
    Foresees Value.RefinedBy (engine.evaluationOf overlay results node)
      (engine.evaluationOf overlay' results' node) := by
  unfold evaluationOf
  rw [hn]
  dsimp only
  cases n.missing with
  | cons first others => exact .error _ _
  | nil =>
    have hrequired : ∀ m ∈ n.dependencies.map .ofAddress,
        Foresees Value.RefinedBy (results m) (results' m) := by
      intro m hm
      obtain ⟨d, hd, rfl⟩ := List.mem_map.mp hm
      exact hdependencies d hd
    refine (requireAll_foresees hrequired).bind fun _ _ _ => ?_
    exact declarationResult_foresees hconservative hn hinstances hknown hoverlay
      (scopeOf_refines hdependencies)

end Nodes

/-- When the value of one node is refined, so are the verdicts on all nodes that exist.  The
induction is on the height of a node, below which lie its dependencies and, for a template, its
instances. -/
theorem verdict_foresees (hgraph : engine.graph.Acyclic) (hconservative : Conservative engine)
    {node : NodeId}
    (hnode : Foresees Value.RefinedBy (engine.verdict overlay node) (engine.verdict overlay' node))
    (hoverlay : ∀ m, m ≠ node → Table.get? overlay m = Table.get? overlay' m) {m : NodeId}
    (hexists : engine.Exists overlay m) :
    Foresees Value.RefinedBy (engine.verdict overlay m) (engine.verdict overlay' m) := by
  induction hheight : engine.height m using Nat.strongRecOn generalizing m with
  | ind height ih =>
    subst hheight
    by_cases hself : m = node
    · rw [hself]
      exact hnode
    · rw [verdict_eq hgraph overlay, verdict_eq hgraph overlay']
      have hdeclared := hexists.1
      rw [← Graph.has_iff_mem_addresses] at hdeclared
      obtain ⟨n, hn⟩ := Option.isSome_iff_exists.mp hdeclared
      refine conclude_foresees m (evaluationOf_foresees hconservative hn ?_ ?_ (hoverlay m hself)
        ?_)
      · -- The instances of a template exist, as it has been expanded into them.
        intro r e htemplate he key hkey
        obtain ⟨haddress, hkeys⟩ := keys_of_expansionOf htemplate.multiple he
        obtain ⟨key, rfl⟩ := Option.isSome_iff_exists.mp (hkeys key hkey)
        refine ih _ (height_instance_lt htemplate.whole key) ⟨hexists.1, .inr ?_⟩ rfl
        exact ⟨n, r, e, hn, htemplate.resource, he, hkey⟩
      · exact fun r e hr hsingle he => hexists.known hn hr hsingle he
      · -- Dependencies are declarations as a whole, and those exist.
        intro d hd
        have hrefers := Graph.refers_iff.mpr ⟨n, hn, hd⟩
        refine ih _ (height_ofAddress_lt hgraph hrefers) ⟨?_, .inl rfl⟩ rfl
        exact Graph.mem_addresses_of_refers hgraph.edges hrefers

end Engine

end Groundplan
