import Groundplan.Engine.Resolution
import Groundplan.Proofs.Graph.Reach
import Groundplan.Proofs.Outcome

/-!
# Verdicts

What becomes of a node, told from scratch: by recursion on the declarations that it refers to,
without a state that keeps what has become of others.  The verdict on a node depends on the
attributes that have been supplied from outside, and on nothing else that has happened.

The recursion is bounded by fuel.  The height of a node lies above those of all nodes that its
verdict needs, and fuel above the height changes nothing.

## Main Definitions

- `Engine.evaluationOf`: the result of a node, given those of others
- `Engine.verdict`: the result of a node

## Main Statements

- `Engine.evaluationOf_congr`: which results the evaluation of a node needs
- `Engine.verdict_eq`: verdicts are results of evaluations by verdicts
- `Engine.verdict_eq_of_unrelated`: supplied attributes concern the dependents only
-/

namespace Groundplan

namespace Engine

/-- Attributes that have been supplied from outside, by instances. -/
abbrev Overlay := Table NodeId (Table String Value)

/-! ## Evaluation by given results -/

section Evaluation

variable (engine : Engine) (overlay : Overlay) (results : NodeId → Except Stop Value)

/-- A computation that only a fault stops. -/
def ofFault {α : Type} (r : Outcome α) : Except Stop α :=
  r.mapError Stop.fault

/-- The scope in which symbols are seen by given values. -/
def scopeSeeing (value? : SymbolPath → Option Value) : Scope :=
  let resolver (path : SymbolPath) : Outcome Value :=
    match value? path with
    | some v => .ok v
    | none => fail (.undefinedSymbol path.address []) none
  [⟨[], some resolver⟩]

/-- The scope in which some declarations are seen by their results. -/
def scopeOf (dependencies : List String) : Scope :=
  scopeSeeing fun path =>
    if path.kind.isReferenceable && dependencies.contains path.address then
      (results (.ofAddress path.address)).toOption
    else none

/-- The first failure among the results of some nodes, unless one of them is a fault. -/
def firstFailureOf : List NodeId → Except Stop (Option Failure)
  | [] => .ok none
  | node :: nodes => do
    let own ← match results node with
      | .ok _ => .ok none
      | .error (.unresolved f) => .ok (some f)
      | .error (.fault f) => .error (.fault f)
    return own.or (← firstFailureOf nodes)

/-- Stop at the first failure among the results of some nodes. -/
def requireAll (nodes : List NodeId) : Except Stop Unit := do
  match ← firstFailureOf results nodes with
  | some f => .error (.unresolved f)
  | none => return ()

/-- The expansion of a resource. -/
def expansionOf (n : Graph.Node) (r : Resource) : Outcome Expansion := do
  let source ← r.multiplicity.mapM fun e =>
    e.evaluate engine.library (scopeOf results n.dependencies)
  Expansion.of engine.settings.maxInstances r source

/-- The value of a template from those of its instances. -/
def aggregateOf (value? : NodeId → Option Value) (e : Expansion) : Option Value := do
  let values ← e.keys.mapM fun key => value? ⟨e.address, key⟩
  if e.mode = .count then return .list values
  else
    return .map <| (e.keys.zip values).filterMap fun (key, v) =>
      match key with
      | some (.name name) => some (name, v)
      | _ => none

/-- The result of a template. -/
def templateResult (n : Graph.Node) (r : Resource) : Except Stop Value := do
  let e ← ofFault (engine.expansionOf results n r)
  if e.isDeferred then return .unknown
  requireAll results (e.keys.map fun key => ⟨r.address, key⟩)
  return (aggregateOf (fun m => (results m).toOption) e).getD .unknown

/-- The result of an instance, given the expansion of its resource. -/
def instanceResult (n : Graph.Node) (r : Resource) (node : NodeId) (e : Expansion) :
    Except Stop Value := do
  if e.isDeferred || !e.keys.contains node.key then
    throw (.fault (.error ⟨.undefinedSymbol node.text [], r.span, []⟩))
  let scope := (scopeOf results n.dependencies).child (e.bindingsFor node.key)
  let arguments ← ofFault (argumentValues engine.library scope r.arguments)
  return .object (attributes arguments r.computed ((Table.get? overlay node).getD []))

/-- The result of a node whose dependencies have values. -/
def declarationResult (n : Graph.Node) (node : NodeId) : Except Stop Value :=
  let scope := scopeOf results n.dependencies
  match n.declaration with
  | .input v => ofFault (engine.inputValue v scope)
  | .localValue v => ofFault (v.expression.evaluate engine.library scope)
  | .output o => ofFault (o.expression.evaluate engine.library scope)
  | .resource r =>
    if node.key.isNone && r.multiplicity.isSome then engine.templateResult results n r
    else do
      let e ← ofFault (engine.expansionOf results n r)
      engine.instanceResult overlay results n r node e

/-- The result of a node, given those of others. -/
def evaluationOf (node : NodeId) : Except Stop Value :=
  match engine.graph.node? node.address with
  | none => .error (.fault (.error ⟨.undefinedSymbol node.text [], none, []⟩))
  | some n =>
    match n.missing with
    | first :: others => .error (.fault (.error (missingError first others n.declaration.span)))
    | [] => do
      requireAll results (n.dependencies.map .ofAddress)
      engine.declarationResult overlay results n node

/-- What an evaluation makes of its node: a failure becomes the node's own. -/
def conclude (node : NodeId) : Except Stop Value → Except Stop Value
  | .ok v => .ok v
  | .error (.unresolved f) => .error (.unresolved (.inherited node f))
  | .error (.fault (.error e)) => .error (.unresolved (.own node e))
  | .error (.fault (.defect d)) => .error (.fault (.defect d))

/-- The result of a node by a recursion of bounded depth. -/
def verdictWithin : Nat → NodeId → Except Stop Value
  | 0, node => .error (.fault (.error ⟨.cycle [node.text], none, []⟩))
  | fuel + 1, node => conclude node (engine.evaluationOf overlay (verdictWithin fuel) node)

/-- The result of a node. -/
def verdict (node : NodeId) : Except Stop Value :=
  engine.verdictWithin overlay (2 * engine.graph.size + 2) node

end Evaluation

theorem ofFault_eq_ok_iff {α : Type} {o : Outcome α} {a : α} : ofFault o = .ok a ↔ o = .ok a := by
  cases o <;> simp [ofFault, Except.mapError]

/-! ## Nodes that are required -/

/-- The failure that a result is. -/
def failureOf? : Except Stop Value → Option Failure
  | .error (.unresolved f) => some f
  | _ => none

section Requirements

variable {results : NodeId → Except Stop Value} {nodes : List NodeId}

/-- The search for failures goes on behind a node that has a value, and behind one that has none
it only looks for faults. -/
theorem firstFailureOf_cons (node : NodeId) :
    firstFailureOf results (node :: nodes) = match results node with
      | .ok _ => firstFailureOf results nodes
      | .error (.unresolved f) => (firstFailureOf results nodes).map fun _ => some f
      | .error (.fault fault) => .error (.fault fault) := by
  simp only [firstFailureOf]
  rcases results node with (f | fault) | v
  · cases firstFailureOf results nodes <;> rfl
  · rfl
  · cases firstFailureOf results nodes <;> rfl

/-- A search for failures is stopped by faults only. -/
theorem exists_fault_of_firstFailureOf {stop : Stop}
    (h : firstFailureOf results nodes = .error stop) :
    ∃ m ∈ nodes, ∃ fault, results m = .error (.fault fault) ∧ stop = .fault fault := by
  induction nodes with
  | nil => cases h
  | cons node nodes ih =>
    rw [firstFailureOf_cons] at h
    have hlater : firstFailureOf results nodes = .error stop →
        ∃ m ∈ node :: nodes, ∃ fault, results m = .error (.fault fault) ∧ stop = .fault fault := by
      intro hrest
      obtain ⟨m, hm, hfault⟩ := ih hrest
      exact ⟨m, List.mem_cons_of_mem node hm, hfault⟩
    cases hnode : results node with
    | ok v =>
      rw [hnode] at h
      exact hlater h
    | error own =>
      rw [hnode] at h
      rcases own with f | fault
      · cases hrest : firstFailureOf results nodes with
        | ok later =>
          rw [hrest] at h
          cases h
        | error stop' =>
          rw [hrest] at h
          cases h
          exact hlater hrest
      · cases h
        exact ⟨node, List.mem_cons_self, fault, hnode, rfl⟩

/-- The first failure is found unless one of the results is a fault. -/
theorem firstFailureOf_eq_ok_iff {found : Option Failure} :
    firstFailureOf results nodes = .ok found
      ↔ (∀ m ∈ nodes, ∀ fault, results m ≠ .error (.fault fault))
        ∧ nodes.findSome? (fun m => failureOf? (results m)) = found := by
  induction nodes generalizing found with
  | nil => simp [firstFailureOf]
  | cons node nodes ih =>
    rw [List.forall_mem_cons, List.findSome?_cons, firstFailureOf_cons]
    rcases results node with (f | fault) | v
    · cases hlater : firstFailureOf results nodes with
      | ok later =>
        have hfaults := (ih.mp hlater).1
        simpa [Except.map, failureOf?] using fun _ => hfaults
      | error stop =>
        have hfaults : ¬ ∀ m ∈ nodes, ∀ fault, results m ≠ .error (.fault fault) := by
          intro hfaults
          cases hlater.symm.trans (ih.mpr ⟨hfaults, rfl⟩)
        simp [Except.map, hfaults]
    · simp
    · simp [failureOf?, ih]

/-- A requirement is met if all nodes have values. -/
theorem requireAll_eq_ok_iff :
    requireAll results nodes = .ok () ↔ ∀ m ∈ nodes, ∃ v, results m = .ok v := by
  have hfirst : requireAll results nodes = .ok () ↔ firstFailureOf results nodes = .ok none := by
    unfold requireAll
    cases hfound : firstFailureOf results nodes with
    | error stop => simp [bind, Except.bind]
    | ok own => cases own <;> simp [bind, Except.bind, pure, Except.pure]
  rw [hfirst, firstFailureOf_eq_ok_iff, List.findSome?_eq_none_iff]
  constructor
  · rintro ⟨hfaults, hfailures⟩ m hm
    have hfailure := hfailures m hm
    cases hresult : results m with
    | ok v => exact ⟨v, rfl⟩
    | error stop =>
      rw [hresult] at hfailure
      rcases stop with f | fault
      · cases hfailure
      · exact absurd hresult (hfaults m hm fault)
  · intro h
    refine ⟨fun m hm fault => ?_, fun m hm => ?_⟩
    · obtain ⟨v, hv⟩ := h m hm
      rw [hv]
      nofun
    · obtain ⟨v, hv⟩ := h m hm
      rw [hv]
      rfl

/-- A requirement that is not met stops with the first failure, unless there is a fault. -/
theorem requireAll_eq_unresolved_iff {f : Failure} :
    requireAll results nodes = .error (.unresolved f)
      ↔ (∀ m ∈ nodes, ∀ fault, results m ≠ .error (.fault fault))
        ∧ nodes.findSome? (fun m => failureOf? (results m)) = some f := by
  rw [← firstFailureOf_eq_ok_iff]
  unfold requireAll
  cases hfound : firstFailureOf results nodes with
  | error stop =>
    obtain ⟨_, _, fault, _, rfl⟩ := exists_fault_of_firstFailureOf hfound
    simp [bind, Except.bind]
  | ok own => cases own <;> simp [bind, Except.bind, pure, Except.pure]

/-- A requirement meets a fault only among the results. -/
theorem exists_fault_of_requireAll {fault : Fault}
    (h : requireAll results nodes = .error (.fault fault)) :
    ∃ m ∈ nodes, results m = .error (.fault fault) := by
  unfold requireAll at h
  cases hfound : firstFailureOf results nodes with
  | ok own =>
    rw [hfound] at h
    cases own <;> cases h
  | error stop =>
    rw [hfound] at h
    cases h
    obtain ⟨m, hm, _, hresult, hsame⟩ := exists_fault_of_firstFailureOf hfound
    cases hsame
    exact ⟨m, hm, hresult⟩

end Requirements

/-- In such a scope a symbol without a value is undefined. -/
theorem lookup_scopeSeeing (value? : SymbolPath → Option Value) (path : SymbolPath)
    (span : Option Span) :
    Scope.lookup (scopeSeeing value?) path span
      = match value? path with
        | some v => .ok v
        | none => fail (.undefinedSymbol path.address []) none :=
  rfl

/-! ## Templates -/

/-- A node stands for all instances of a resource with a source of multiplicity. -/
structure IsTemplate (engine : Engine) (node : NodeId) (n : Graph.Node) (r : Resource) : Prop where
  declared : engine.graph.node? node.address = some n
  resource : n.declaration = .resource r
  multiple : r.multiplicity.isSome = true
  whole : node.key = none

/-- An instance by itself is no template. -/
theorem not_isTemplate_of_single {engine : Engine} {node : NodeId} {n : Graph.Node} {r : Resource}
    (hr : n.declaration = .resource r)
    (hsingle : ¬ (node.key.isNone && r.multiplicity.isSome) = true) (r' : Resource) :
    ¬ engine.IsTemplate node n r' := by
  intro htemplate
  have hresource := htemplate.resource
  rw [hr] at hresource
  cases hresource
  exact hsingle (by simp [htemplate.whole, htemplate.multiple])

/-- The address of a resource is that of its node. -/
theorem address_of_resource {engine : Engine} {address : String} {n : Graph.Node} {r : Resource}
    (hn : engine.graph.node? address = some n) (hr : n.declaration = .resource r) :
    address = r.address := by
  rw [← (Graph.mem_of_node? hn).2, Graph.Node.address, hr]
  rfl

/-- The value of a multiplicity defers the instances, counts them, or names them. -/
theorem cases_of_ofValue {limit : Int} {address : String} {source : Value} {span : Option Span}
    {e : Expansion} (h : Expansion.ofValue limit address source span = .ok e) :
    e = .deferred address ∨ (∃ count, e = .counted address count)
      ∨ ∃ entries, e = .named address entries := by
  cases source with
  | null | bool | string | list => cases h
  | unknown =>
    cases h
    exact .inl rfl
  | number n =>
    simp only [Expansion.ofValue] at h
    split at h
    · obtain ⟨_, _, h⟩ := bind_eq_ok_iff.mp h
      obtain ⟨_, hrefused, _⟩ := bind_eq_ok_iff.mp h
      cases hrefused
    · obtain ⟨_, _, h⟩ := bind_eq_ok_iff.mp h
      cases h
      exact .inr (.inl ⟨_, rfl⟩)
  | set items =>
    simp only [Expansion.ofValue] at h
    split at h
    · cases h
      exact .inl rfl
    · obtain ⟨entries, _, h⟩ := bind_eq_ok_iff.mp h
      obtain ⟨_, _, h⟩ := bind_eq_ok_iff.mp h
      cases h
      exact .inr (.inr ⟨_, rfl⟩)
  | map fields | object fields =>
    simp only [Expansion.ofValue] at h
    obtain ⟨_, _, h⟩ := bind_eq_ok_iff.mp h
    cases h
    exact .inr (.inr ⟨_, rfl⟩)

theorem ofValue_of_expansionOf {engine : Engine} {results : NodeId → Except Stop Value}
    {n : Graph.Node} {r : Resource} (htemplate : r.multiplicity.isSome = true) {e : Expansion}
    (h : engine.expansionOf results n r = .ok e) :
    ∃ source span, Expansion.ofValue engine.settings.maxInstances r.address source span
      = .ok e := by
  obtain ⟨multiplicity, hmultiplicity⟩ := Option.isSome_iff_exists.mp htemplate
  unfold expansionOf at h
  rw [hmultiplicity] at h
  cases hsource : multiplicity.evaluate engine.library (scopeOf results n.dependencies) with
  | error fault =>
    simp [hsource] at h
    cases h
  | ok source =>
    simp [hsource] at h
    exact ⟨source, _, h⟩

/-- An expansion has keys for all of its instances. -/
theorem keys_of_expansionOf {engine : Engine} {results : NodeId → Except Stop Value}
    {n : Graph.Node} {r : Resource} (htemplate : r.multiplicity.isSome = true) {e : Expansion}
    (h : engine.expansionOf results n r = .ok e) :
    e.address = r.address ∧ ∀ key ∈ e.keys, key.isSome = true := by
  obtain ⟨source, span, h⟩ := ofValue_of_expansionOf htemplate h
  rcases cases_of_ofValue h with rfl | ⟨count, rfl⟩ | ⟨entries, rfl⟩
  · exact ⟨rfl, nofun⟩
  · refine ⟨rfl, fun key hkey => ?_⟩
    obtain ⟨_, _, rfl⟩ := List.mem_map.mp hkey
    rfl
  · refine ⟨rfl, fun key hkey => ?_⟩
    obtain ⟨_, _, rfl⟩ := List.mem_map.mp hkey
    rfl

/-- While instances are deferred, there are none; the only instance of a resource without a source
of multiplicity is never deferred. -/
theorem keys_of_isDeferred {engine : Engine} {results : NodeId → Except Stop Value}
    {n : Graph.Node} {r : Resource} {e : Expansion} (h : engine.expansionOf results n r = .ok e)
    (hdeferred : e.isDeferred = true) : r.multiplicity.isSome = true ∧ e.keys = [] := by
  cases hmultiplicity : r.multiplicity with
  | none =>
    unfold expansionOf at h
    rw [hmultiplicity] at h
    cases h
    cases hdeferred
  | some multiplicity =>
    obtain ⟨source, span, h⟩ := ofValue_of_expansionOf (by rw [hmultiplicity]; rfl) h
    rcases cases_of_ofValue h with rfl | ⟨count, rfl⟩ | ⟨entries, rfl⟩
    · exact ⟨rfl, rfl⟩
    · cases hdeferred
    · cases hdeferred

/-- The conditions on an input variable are among its expressions. -/
theorem exists_expression_of_mem_validations {v : InputVariable} {rule : Validation}
    (h : rule ∈ v.validations) :
    ∃ role, (role, rule.condition) ∈ (Declaration.input v).expressions := by
  obtain ⟨i, hi⟩ := List.mem_iff_getElem?.mp h
  refine ⟨_, List.mem_map.mpr ⟨(rule, i), ?_, rfl⟩⟩
  rw [List.mem_iff_getElem?]
  exact ⟨i, by simp [hi]⟩

/-! ## What an evaluation needs -/

section Congruence

variable {engine : Engine} {overlay overlay' : Overlay} {results results' : NodeId → Except Stop Value}

theorem scopeOf_congr {dependencies : List String}
    (h : ∀ d ∈ dependencies, results (.ofAddress d) = results' (.ofAddress d)) :
    scopeOf results dependencies = scopeOf results' dependencies := by
  unfold scopeOf
  congr 1
  funext path
  by_cases hpath : (path.kind.isReferenceable && dependencies.contains path.address) = true
  · rw [if_pos hpath, if_pos hpath]
    obtain ⟨_, hmem⟩ := Bool.and_eq_true_iff.mp hpath
    rw [h path.address (List.contains_iff_mem.mp hmem)]
  · rw [if_neg hpath, if_neg hpath]

theorem firstFailureOf_congr {nodes : List NodeId}
    (h : ∀ m ∈ nodes, results m = results' m) :
    firstFailureOf results nodes = firstFailureOf results' nodes := by
  induction nodes with
  | nil => rfl
  | cons node nodes ih =>
    simp only [firstFailureOf]
    rw [h node (by simp), ih fun m hm => h m (List.mem_cons_of_mem node hm)]

theorem requireAll_congr {nodes : List NodeId} (h : ∀ m ∈ nodes, results m = results' m) :
    requireAll results nodes = requireAll results' nodes := by
  unfold requireAll
  rw [firstFailureOf_congr h]

private theorem mapM_congr {α β : Type} {f g : α → Option β} {as : List α}
    (h : ∀ a ∈ as, f a = g a) : as.mapM f = as.mapM g := by
  induction as with
  | nil => rfl
  | cons a as ih =>
    rw [List.mapM_cons, List.mapM_cons, h a (by simp),
      ih fun b hb => h b (List.mem_cons_of_mem a hb)]

theorem aggregateOf_congr {value? value?' : NodeId → Option Value} {e : Expansion}
    (h : ∀ key ∈ e.keys, value? ⟨e.address, key⟩ = value?' ⟨e.address, key⟩) :
    aggregateOf value? e = aggregateOf value?' e := by
  unfold aggregateOf
  rw [mapM_congr h]

/-- A template needs the results of its instances. -/
theorem templateResult_congr {n : Graph.Node} {r : Resource}
    (hexpansion : engine.expansionOf results n r = engine.expansionOf results' n r)
    (hinstances : ∀ key : InstanceKey,
      results ⟨r.address, some key⟩ = results' ⟨r.address, some key⟩)
    (htemplate : r.multiplicity.isSome = true) :
    engine.templateResult results n r = engine.templateResult results' n r := by
  unfold templateResult
  rw [hexpansion]
  cases he : engine.expansionOf results' n r with
  | error fault => rfl
  | ok e =>
    obtain ⟨haddress, hkeys⟩ := keys_of_expansionOf htemplate he
    have hsame : ∀ key ∈ e.keys, results ⟨r.address, key⟩ = results' ⟨r.address, key⟩ := by
      intro key hkey
      obtain ⟨key, rfl⟩ := Option.isSome_iff_exists.mp (hkeys key hkey)
      exact hinstances key
    have hrequired : requireAll results (e.keys.map fun key => ⟨r.address, key⟩)
        = requireAll results' (e.keys.map fun key => ⟨r.address, key⟩) := by
      refine requireAll_congr fun m hm => ?_
      obtain ⟨key, hkey, rfl⟩ := List.mem_map.mp hm
      exact hsame key hkey
    have haggregate : aggregateOf (fun m => (results m).toOption) e
        = aggregateOf (fun m => (results' m).toOption) e := by
      refine aggregateOf_congr fun key hkey => ?_
      rw [haddress, hsame key hkey]
    show (if e.isDeferred = true then _ else _) = (if e.isDeferred = true then _ else _)
    rw [hrequired, haggregate]

/-- The evaluation of a node needs the results of its dependencies and, for a template, those of
its instances. -/
theorem evaluationOf_congr {node : NodeId}
    (hdependencies : ∀ d, engine.graph.Refers node.address d →
      results (.ofAddress d) = results' (.ofAddress d))
    (hinstances : ∀ n r, engine.IsTemplate node n r → ∀ key : InstanceKey,
      results ⟨node.address, some key⟩ = results' ⟨node.address, some key⟩)
    (hoverlay : Table.get? overlay node = Table.get? overlay' node) :
    engine.evaluationOf overlay results node = engine.evaluationOf overlay' results' node := by
  unfold evaluationOf
  cases hn : engine.graph.node? node.address with
  | none => rfl
  | some n =>
    have hdependencies : ∀ d ∈ n.dependencies,
        results (.ofAddress d) = results' (.ofAddress d) :=
      fun d hd => hdependencies d (Graph.refers_iff.mpr ⟨n, hn, hd⟩)
    have hrequired : requireAll results (n.dependencies.map .ofAddress)
        = requireAll results' (n.dependencies.map .ofAddress) := by
      refine requireAll_congr fun m hm => ?_
      obtain ⟨d, hd, rfl⟩ := List.mem_map.mp hm
      exact hdependencies d hd
    have hscope := scopeOf_congr hdependencies
    have hexpansion : ∀ r, engine.expansionOf results n r = engine.expansionOf results' n r := by
      intro r
      unfold expansionOf
      rw [hscope]
    dsimp only
    rw [hrequired]
    cases n.missing with
    | cons first others => rfl
    | nil =>
      dsimp only
      congr 1
      funext _
      unfold declarationResult
      dsimp only
      rw [hscope]
      cases hdeclaration : n.declaration with
      | input v => rfl
      | localValue v => rfl
      | output o => rfl
      | resource r =>
        dsimp only
        have haddress := address_of_resource hn hdeclaration
        by_cases htemplate : (node.key.isNone && r.multiplicity.isSome) = true
        · -- Only templates need the results of their instances.
          rw [if_pos htemplate, if_pos htemplate]
          obtain ⟨hkey, hmultiple⟩ := Bool.and_eq_true_iff.mp htemplate
          have hinstances := hinstances n r ⟨hn, hdeclaration, hmultiple, by simpa using hkey⟩
          rw [haddress] at hinstances
          exact templateResult_congr (hexpansion r) hinstances hmultiple
        · -- Only instances have attributes supplied.
          rw [if_neg htemplate, if_neg htemplate, hexpansion]
          congr 1
          funext e
          unfold instanceResult
          rw [hscope, hoverlay]

end Congruence

/-! ## Heights -/

/-- A number above those of all nodes that the verdict on a node needs: instances lie above what
their declaration refers to, and templates above their instances. -/
def height (engine : Engine) (node : NodeId) : Nat :=
  2 * engine.graph.rank node.address + if node.key.isNone then 2 else 1

section Verdict

variable {engine : Engine} (hgraph : engine.graph.Acyclic) (overlay : Overlay)

theorem height_ofAddress_lt (hgraph : engine.graph.Acyclic) {node : NodeId} {d : String}
    (h : engine.graph.Refers node.address d) : engine.height (.ofAddress d) < engine.height node := by
  have hrank := hgraph.rank_lt h
  unfold height
  simp only [NodeId.ofAddress, Option.isNone_none, if_true]
  split <;> omega

theorem height_instance_lt {node : NodeId} (h : node.key = none) (key : InstanceKey) :
    engine.height ⟨node.address, some key⟩ < engine.height node := by
  simp [height, h]

include hgraph

theorem height_le (node : NodeId) : engine.height node ≤ 2 * engine.graph.size + 2 := by
  have hrank := hgraph.rank_le_size node.address
  unfold height
  split <;> omega

/-- Fuel above the height of a node changes nothing. -/
theorem verdictWithin_eq {fuel fuel' : Nat} {node : NodeId} (hfuel : engine.height node ≤ fuel)
    (hfuel' : engine.height node ≤ fuel') :
    engine.verdictWithin overlay fuel node = engine.verdictWithin overlay fuel' node := by
  have hpositive : 0 < engine.height node := by
    unfold height
    split <;> omega
  induction fuel generalizing fuel' node with
  | zero => omega
  | succ fuel ih =>
    cases fuel' with
    | zero => omega
    | succ fuel' =>
      -- Whatever the node needs lies below it, and has enough fuel on both sides.
      have hbelow : ∀ m, engine.height m < engine.height node → 0 < engine.height m →
          engine.verdictWithin overlay fuel m = engine.verdictWithin overlay fuel' m :=
        fun m hm hpositive => ih (by omega) (by omega) hpositive
      have hpositive : ∀ m, 0 < engine.height m := by
        intro m
        unfold height
        split <;> omega
      unfold verdictWithin
      rw [evaluationOf_congr (fun d hd => hbelow _ (height_ofAddress_lt hgraph hd) (hpositive _))
        (fun _ _ htemplate key => hbelow _ (height_instance_lt htemplate.whole key)
          (hpositive _)) rfl]

/-- Verdicts are the results of evaluations by verdicts. -/
theorem verdict_eq (node : NodeId) :
    engine.verdict overlay node
      = conclude node (engine.evaluationOf overlay (engine.verdict overlay) node) := by
  have hnext : engine.verdict overlay node
      = engine.verdictWithin overlay (2 * engine.graph.size + 2 + 1) node :=
    verdictWithin_eq hgraph overlay (height_le hgraph node)
      (Nat.le_succ_of_le (height_le hgraph node))
  exact hnext

/-- The verdict on a node whose evaluation fails is a failure; only defects are left. -/
theorem verdict_ne_error (node : NodeId) (e : EvalError) :
    engine.verdict overlay node ≠ .error (.fault (.error e)) := by
  rw [verdict_eq hgraph]
  rcases engine.evaluationOf overlay (engine.verdict overlay) node with (f | ⟨e' | d⟩) | v <;> nofun

end Verdict

/-! ## Unrelated attributes -/

/-- Supplied attributes concern their declaration and its dependents only. -/
theorem verdict_eq_of_unrelated {engine : Engine} {overlay overlay' : Overlay} {address : String}
    (hoverlay : ∀ m : NodeId, m.address ≠ address → Table.get? overlay m = Table.get? overlay' m)
    {node : NodeId} (hself : node.address ≠ address)
    (hunrelated : ¬ Relation.TransGen engine.graph.Refers node.address address) :
    engine.verdict overlay node = engine.verdict overlay' node := by
  unfold verdict
  generalize 2 * engine.graph.size + 2 = fuel
  induction fuel generalizing node with
  | zero => rfl
  | succ fuel ih =>
    unfold verdictWithin
    rw [evaluationOf_congr]
    · intro d hd
      apply ih
      · rintro rfl
        exact hunrelated (.single hd)
      · exact fun hpath => hunrelated (.head hd hpath)
    · exact fun _ _ _ key => ih hself hunrelated
    · exact hoverlay node hself

end Engine

end Groundplan
