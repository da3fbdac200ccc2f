import Groundplan.Proofs.Engine.Defects
import Groundplan.Proofs.Engine.Instances

/-!
# Results Are Local

What becomes of a node is decided by its declaration and by those that it depends on.  Two engines
may hold these among others and in different orders, so that they place, order and drive the
declarations differently and find different failures first.  If they agree on what the node depends
on, it meets the same fate in both: the same value, or the same failure, or it is skipped.  Only
where a skipped node points to may depend on the order.

The verdicts are compared by induction on the height of the node.  Dependencies are listed in the
order of the declarations, but whether all of them have values does not depend on that order, and
neither does the scope in which they are seen.

## Main Definitions

- `Engine.AgreeBelow`: two engines agree on an address and on all that it depends on
- `Engine.SameFate`: two results tell the same of a node
- `Engine.Existing`: nodes that a run settles

## Main Statements

- `Engine.verdict_sameFate`: nodes on which engines agree meet the same fate
- `Engine.Finished.isSettled_iff`: which nodes a run settles
- `Engine.run_local`
-/

namespace Groundplan

namespace Engine

variable {engine engine' : Engine} {overlay : Overlay} {s s' : State} {address : String}
  {node : NodeId}

/-! ## Engines that agree -/

/-- Two engines agree on an address: the same is declared there, with the same references to what
nothing declares, and an input variable has been supplied with the same value. -/
structure AgreeAt (engine engine' : Engine) (address : String) : Prop where
  declaration : engine.graph.declaration? address = engine'.graph.declaration? address
  missing : engine.graph.missing address = engine'.graph.missing address
  supplied : ∀ v, engine.graph.declaration? address = some (.input v) →
    Table.get? engine.inputs v.name = Table.get? engine'.inputs v.name

/-- Two engines agree on an address and on all that it depends on, directly or through others. -/
def AgreeBelow (engine engine' : Engine) (address : String) : Prop :=
  ∀ a, Relation.ReflTransGen engine.graph.Refers address a → AgreeAt engine engine' a

namespace AgreeAt

variable (h : AgreeAt engine engine' address)

include h

theorem node?_eq_none (hn : engine.graph.node? address = none) :
    engine'.graph.node? address = none := by
  have hdeclaration := h.declaration
  unfold Graph.declaration? at hdeclaration
  rw [hn] at hdeclaration
  exact Option.map_eq_none_iff.mp hdeclaration.symm

/-- The same declaration stands at both addresses, and the same is missing. -/
theorem exists_node {n : Graph.Node} (hn : engine.graph.node? address = some n) :
    ∃ n', engine'.graph.node? address = some n' ∧ n'.declaration = n.declaration
      ∧ n'.missing = n.missing := by
  have hdeclaration := h.declaration
  have hmissing := h.missing
  unfold Graph.declaration? at hdeclaration
  unfold Graph.missing at hmissing
  rw [hn] at hdeclaration hmissing
  obtain ⟨n', hn', hsame⟩ := Option.map_eq_some_iff.mp hdeclaration.symm
  rw [hn'] at hmissing
  exact ⟨n', hn', hsame, hmissing.symm⟩

theorem mem_addresses_iff :
    address ∈ engine.graph.addresses ↔ address ∈ engine'.graph.addresses := by
  rw [← Graph.has_iff_mem_addresses, ← Graph.has_iff_mem_addresses]
  unfold Graph.has
  cases hn : engine.graph.node? address with
  | none => rw [h.node?_eq_none hn]
  | some n =>
    obtain ⟨n', hn', _⟩ := h.exists_node hn
    rw [hn']
    simp

end AgreeAt

namespace AgreeBelow

theorem self (h : AgreeBelow engine engine' address) : AgreeAt engine engine' address :=
  h address .refl

theorem dependency (h : AgreeBelow engine engine' address) {a : String}
    (hrefers : engine.graph.Refers address a) : AgreeBelow engine engine' a :=
  fun b hpath => h b (.head hrefers hpath)

/-- Declarations on which engines agree refer to the same others, in orders of their own. -/
theorem mem_dependencies_iff (hgraph : engine.graph.Acyclic) (hgraph' : engine'.graph.Acyclic)
    (h : AgreeBelow engine engine' address) {n n' : Graph.Node}
    (hn : engine.graph.node? address = some n) (hn' : engine'.graph.node? address = some n')
    (hdeclaration : n'.declaration = n.declaration) (hmissing : n'.missing = n.missing)
    (a : String) : a ∈ n.dependencies ↔ a ∈ n'.dependencies := by
  have hedges := hgraph.edges n (Graph.mem_of_node? hn).1
  have hedges' := hgraph'.edges n' (Graph.mem_of_node? hn').1
  have hmem : a ∈ n.dependencies
      ↔ a ∈ engine.graph.addresses ∧ a ∈ n.declaration.references.map SymbolPath.address := by
    rw [hedges, Graph.Node.among, List.mem_filter, List.contains_iff_mem]
  have hmem' : a ∈ n'.dependencies
      ↔ a ∈ engine'.graph.addresses ∧ a ∈ n.declaration.references.map SymbolPath.address := by
    rw [hedges', Graph.Node.among, List.mem_filter, List.contains_iff_mem, hdeclaration]
  constructor
  · intro ha
    have hagree := (h.dependency (Graph.refers_iff.mpr ⟨n, hn, ha⟩)).self
    exact hmem'.mpr ⟨hagree.mem_addresses_iff.mp (hmem.mp ha).1, (hmem.mp ha).2⟩
  · intro ha
    obtain ⟨hdeclared', hmentioned⟩ := hmem'.mp ha
    refine hmem.mpr ⟨?_, hmentioned⟩
    -- Otherwise the reference would be missing in the one engine and not in the other.
    by_contra hundeclared
    obtain ⟨path, hpath, rfl⟩ := List.mem_map.mp hmentioned
    have hmiss : path ∈ n.missing := by
      rw [hedges, Graph.Node.among, List.mem_filter]
      exact ⟨hpath, by simpa using hundeclared⟩
    rw [← hmissing, hedges', Graph.Node.among, List.mem_filter] at hmiss
    exact absurd hdeclared' (by simpa using hmiss.2)

end AgreeBelow

/-! ## Fates -/

/-- Two results tell the same of a node: it has the same value, it has failed in the same way, or it
has been skipped. -/
inductive SameFate : Except Stop Value → Except Stop Value → Prop where
  | value (v : Value) : SameFate (.ok v) (.ok v)
  | failed {f : Failure} (own : f.isSkipped = false) :
      SameFate (.error (.unresolved f)) (.error (.unresolved f))
  | skipped {f f' : Failure} (skipped : f.isSkipped = true) (skipped' : f'.isSkipped = true) :
      SameFate (.error (.unresolved f)) (.error (.unresolved f'))

/-- Two evaluations come to the same, or both of them stop at a node without a value. -/
def ComeAlike {α : Type} (r r' : Except Stop α) : Prop :=
  r = r' ∨ ∃ f f', r = .error (.unresolved f) ∧ r' = .error (.unresolved f')

/-- A node is skipped in both engines if its evaluation stops at another one. -/
theorem ComeAlike.conclude {r r' : Except Stop Value} (h : ComeAlike r r')
    (hregular : IsRegular (Engine.conclude node r)) :
    SameFate (Engine.conclude node r) (Engine.conclude node r') := by
  rcases h with rfl | ⟨f, f', rfl, rfl⟩
  · rcases r with (f | ⟨e | d⟩) | v
    · exact .skipped rfl rfl
    · exact .failed rfl
    · exact absurd rfl (hregular d)
    · exact .value v
  · exact .skipped rfl rfl

theorem ComeAlike.bind {α β : Type} {r r' : Except Stop α} {f f' : α → Except Stop β}
    (h : ComeAlike r r') (hnext : ∀ a, r = .ok a → r' = .ok a → ComeAlike (f a) (f' a)) :
    ComeAlike (r >>= f) (r' >>= f') := by
  rcases h with rfl | ⟨g, g', rfl, rfl⟩
  · cases r with
    | error stop => exact .inl rfl
    | ok a => exact hnext a rfl rfl
  · exact .inr ⟨g, g', rfl, rfl⟩

section Requirements

variable {results results' : NodeId → Except Stop Value} {nodes nodes' : List NodeId}

theorem SameFate.ne_fault {r r' : Except Stop Value} (h : SameFate r r') (fault : Fault) :
    r ≠ .error (.fault fault) ∧ r' ≠ .error (.fault fault) := by
  cases h <;> exact ⟨nofun, nofun⟩

theorem SameFate.eq_of_ok {r r' : Except Stop Value} (h : SameFate r r') {v : Value}
    (hv : r = .ok v) : r' = .ok v := by
  cases h <;> cases hv
  rfl

theorem SameFate.eq_of_ok' {r r' : Except Stop Value} (h : SameFate r r') {v : Value}
    (hv : r' = .ok v) : r = .ok v := by
  cases h <;> cases hv
  rfl

/-- A requirement on nodes without faults is met, or it stops at a failure. -/
theorem requireAll_cases (hfaults : ∀ m ∈ nodes, ∀ fault, results m ≠ .error (.fault fault)) :
    requireAll results nodes = .ok ()
      ∨ ∃ f, requireAll results nodes = .error (.unresolved f) := by
  cases h : requireAll results nodes with
  | ok _ => exact .inl rfl
  | error stop =>
    rcases stop with f | fault
    · exact .inr ⟨f, rfl⟩
    · obtain ⟨m, hm, hfault⟩ := exists_fault_of_requireAll h
      exact absurd hfault (hfaults m hm fault)

/-- Whether a requirement is met does not depend on the order of the nodes. -/
theorem requireAll_comeAlike (hsame : ∀ m, m ∈ nodes ↔ m ∈ nodes')
    (hfate : ∀ m ∈ nodes, SameFate (results m) (results' m)) :
    ComeAlike (requireAll results nodes) (requireAll results' nodes') := by
  have hmet : requireAll results nodes = .ok () ↔ requireAll results' nodes' = .ok () := by
    rw [requireAll_eq_ok_iff, requireAll_eq_ok_iff]
    constructor
    · intro h m hm
      have hm := (hsame m).mpr hm
      obtain ⟨v, hv⟩ := h m hm
      exact ⟨v, (hfate m hm).eq_of_ok hv⟩
    · intro h m hm
      obtain ⟨v, hv⟩ := h m ((hsame m).mp hm)
      exact ⟨v, (hfate m hm).eq_of_ok' hv⟩
  have hleft := requireAll_cases fun m hm fault => ((hfate m hm).ne_fault fault).1
  have hright : requireAll results' nodes' = .ok ()
      ∨ ∃ f, requireAll results' nodes' = .error (.unresolved f) :=
    requireAll_cases fun m hm fault => ((hfate m ((hsame m).mpr hm)).ne_fault fault).2
  rcases hleft with hleft | ⟨f, hleft⟩
  · exact .inl (hleft.trans (hmet.mp hleft).symm)
  · rcases hright with hright | ⟨f', hright⟩
    · rw [hmet.mpr hright] at hleft
      cases hleft
    · exact .inr ⟨f, f', hleft, hright⟩

/-- Values are the same in any order of the declarations. -/
theorem eq_of_requireAll (hfate : ∀ m ∈ nodes, SameFate (results m) (results' m))
    (hmet : requireAll results nodes = .ok ()) : ∀ m ∈ nodes, results m = results' m := by
  intro m hm
  obtain ⟨v, hv⟩ := requireAll_eq_ok_iff.mp hmet m hm
  exact hv.trans ((hfate m hm).eq_of_ok hv).symm

/-- A scope does not tell in which order the declarations are listed. -/
theorem scopeOf_eq_of_mem_iff {dependencies dependencies' : List String}
    (hsame : ∀ a, a ∈ dependencies ↔ a ∈ dependencies')
    (h : ∀ a ∈ dependencies, results (.ofAddress a) = results' (.ofAddress a)) :
    scopeOf results dependencies = scopeOf results' dependencies' := by
  rw [scopeOf_congr h]
  have hcontains : ∀ a, dependencies.contains a = dependencies'.contains a := fun a => by
    rw [Bool.eq_iff_iff, List.contains_iff_mem, List.contains_iff_mem, hsame]
  unfold scopeOf
  simp only [hcontains]

end Requirements

/-! ## Declarations on which engines agree -/

section Agreement

variable {results results' : NodeId → Except Stop Value} {n n' : Graph.Node}
  (hlibrary : engine.library = engine'.library)
  (hlimit : engine.settings.maxInstances = engine'.settings.maxInstances)
  (hscope : scopeOf results n.dependencies = scopeOf results' n'.dependencies)

include hlibrary hscope

theorem expansionOf_eq_of_agree (hlimit : engine.settings.maxInstances
    = engine'.settings.maxInstances) (r : Resource) :
    engine.expansionOf results n r = engine'.expansionOf results' n' r := by
  unfold expansionOf
  rw [hlibrary, hscope, hlimit]

theorem argumentsOf_eq_of_agree (hlimit : engine.settings.maxInstances
    = engine'.settings.maxInstances) (r : Resource) (node : NodeId) :
    engine.argumentsOf results n r node = engine'.argumentsOf results' n' r node := by
  unfold argumentsOf
  rw [expansionOf_eq_of_agree hlibrary hscope hlimit, hlibrary, hscope]

include hlimit

/-- Templates come to the same if their instances meet the same fates. -/
theorem templateResult_comeAlike {r : Resource} (htemplate : r.multiplicity.isSome = true)
    (hinstances : ∀ key : InstanceKey,
      SameFate (results ⟨r.address, some key⟩) (results' ⟨r.address, some key⟩)) :
    ComeAlike (engine.templateResult results n r) (engine'.templateResult results' n' r) := by
  have hexpansion : ComeAlike (ofFault (engine.expansionOf results n r))
      (ofFault (engine'.expansionOf results' n' r)) :=
    .inl (congrArg ofFault (expansionOf_eq_of_agree hlibrary hscope hlimit r))
  refine hexpansion.bind fun e he _ => ?_
  obtain ⟨haddress, hkeys⟩ := keys_of_expansionOf htemplate (ofFault_eq_ok_iff.mp he)
  have hmembers : ∀ m ∈ e.keys.map fun key => (⟨r.address, key⟩ : NodeId),
      SameFate (results m) (results' m) := by
    intro m hm
    obtain ⟨key, hkey, rfl⟩ := List.mem_map.mp hm
    obtain ⟨key, rfl⟩ := Option.isSome_iff_exists.mp (hkeys key hkey)
    exact hinstances key
  show ComeAlike (if e.isDeferred = true then _ else _) (if e.isDeferred = true then _ else _)
  split
  · exact .inl rfl
  · refine (requireAll_comeAlike (fun _ => .rfl) hmembers).bind fun _ hmet _ => .inl ?_
    have haggregate : aggregateOf (fun m => (results m).toOption) e
        = aggregateOf (fun m => (results' m).toOption) e := by
      refine aggregateOf_congr fun key hkey => ?_
      rw [haddress, eq_of_requireAll hmembers hmet _ (List.mem_map_of_mem hkey)]
    rw [haggregate]

/-- Declarations come to the same in the same scope. -/
theorem declarationResult_comeAlike (hn : engine.graph.node? node.address = some n)
    (hdeclaration : n'.declaration = n.declaration)
    (hsupplied : ∀ v, n.declaration = .input v →
      Table.get? engine.inputs v.name = Table.get? engine'.inputs v.name)
    (hinstances : node.key = none → ∀ key : InstanceKey,
      SameFate (results ⟨node.address, some key⟩) (results' ⟨node.address, some key⟩)) :
    ComeAlike (engine.declarationResult overlay results n node)
      (engine'.declarationResult overlay results' n' node) := by
  unfold declarationResult
  dsimp only
  rw [hdeclaration, ← hscope]
  cases hcase : n.declaration with
  | input v =>
    refine .inl ?_
    dsimp only
    unfold inputValue
    rw [hsupplied v hcase, hlibrary]
  | localValue v | output o =>
    refine .inl ?_
    dsimp only
    rw [hlibrary]
  | resource r =>
    dsimp only
    by_cases htemplate : (node.key.isNone && r.multiplicity.isSome) = true
    · rw [if_pos htemplate, if_pos htemplate]
      obtain ⟨hkey, hmultiple⟩ := Bool.and_eq_true_iff.mp htemplate
      have hinstances := hinstances (Option.isNone_iff_eq_none.mp hkey)
      rw [address_of_resource hn hcase] at hinstances
      exact templateResult_comeAlike hlibrary hlimit hscope hmultiple hinstances
    · rw [if_neg htemplate, if_neg htemplate,
        expansionOf_eq_of_agree hlibrary hscope hlimit]
      refine .inl ?_
      congr 1
      funext e
      unfold instanceResult
      rw [hlibrary, hscope]

end Agreement

/-! ## Verdicts -/

section Verdicts

variable (hgraph : engine.graph.Acyclic) (hgraph' : engine'.graph.Acyclic)
  (hlibrary : engine.library = engine'.library)
  (hlimit : engine.settings.maxInstances = engine'.settings.maxInstances)
  (hregular : engine.RaisesErrorsOnly overlay)

include hgraph hgraph' hlibrary hlimit hregular

/-- **Nodes on which engines agree meet the same fate.** -/
theorem verdict_sameFate (h : AgreeBelow engine engine' node.address) :
    SameFate (engine.verdict overlay node) (engine'.verdict overlay node) := by
  induction hheight : engine.height node using Nat.strong_induction_on generalizing node with
  | _ height ih =>
    have hbelow : ∀ m, engine.height m < engine.height node →
        AgreeBelow engine engine' m.address →
        SameFate (engine.verdict overlay m) (engine'.verdict overlay m) := by
      intro m hm hagree
      rw [hheight] at hm
      exact ih (engine.height m) hm hagree rfl
    have hregularNode := isRegular_verdict hgraph hregular node
    rw [verdict_eq hgraph] at hregularNode ⊢
    rw [verdict_eq hgraph']
    refine ComeAlike.conclude ?_ hregularNode
    unfold evaluationOf
    cases hn : engine.graph.node? node.address with
    | none =>
      rw [h.self.node?_eq_none hn]
      exact .inl rfl
    | some n =>
      obtain ⟨n', hn', hdeclaration, hmissing⟩ := h.self.exists_node hn
      rw [hn']
      dsimp only
      rw [hmissing, hdeclaration]
      cases hnone : n.missing with
      | cons first others => exact .inl rfl
      | nil =>
        dsimp only
        have hsame := h.mem_dependencies_iff hgraph hgraph' hn hn' hdeclaration hmissing
        have hdependencies : ∀ m ∈ n.dependencies.map NodeId.ofAddress,
            SameFate (engine.verdict overlay m) (engine'.verdict overlay m) := by
          intro m hm
          obtain ⟨a, ha, rfl⟩ := List.mem_map.mp hm
          have hrefers : engine.graph.Refers node.address a := Graph.refers_iff.mpr ⟨n, hn, ha⟩
          exact hbelow _ (height_ofAddress_lt hgraph hrefers) (h.dependency hrefers)
        have hlisted : ∀ m, m ∈ n.dependencies.map NodeId.ofAddress
            ↔ m ∈ n'.dependencies.map NodeId.ofAddress := by
          intro m
          rw [List.mem_map, List.mem_map]
          exact exists_congr fun a => and_congr_left' (hsame a)
        refine (requireAll_comeAlike hlisted hdependencies).bind fun _ hmet _ => ?_
        have hvalues := eq_of_requireAll hdependencies hmet
        refine declarationResult_comeAlike hlibrary hlimit
          (scopeOf_eq_of_mem_iff hsame fun a ha => hvalues _ (List.mem_map_of_mem ha)) hn
          hdeclaration (fun v hv => h.self.supplied v ?_) fun hkey key =>
            hbelow _ (height_instance_lt hkey key) h
        unfold Graph.declaration?
        rw [hn, ← hv]
        rfl

/-- A requirement is met in both engines or in neither. -/
theorem requireAll_iff_of_agree (h : AgreeBelow engine engine' address) {n n' : Graph.Node}
    (hn : engine.graph.node? address = some n) (hn' : engine'.graph.node? address = some n')
    (hdeclaration : n'.declaration = n.declaration) (hmissing : n'.missing = n.missing) :
    requireAll (engine.verdict overlay) (n.dependencies.map .ofAddress) = .ok ()
      ↔ requireAll (engine'.verdict overlay) (n'.dependencies.map .ofAddress) = .ok () := by
  have hfate : ∀ a ∈ n.dependencies,
      SameFate (engine.verdict overlay (.ofAddress a)) (engine'.verdict overlay (.ofAddress a)) :=
    fun a ha => verdict_sameFate hgraph hgraph' hlibrary hlimit hregular
      (h.dependency (Graph.refers_iff.mpr ⟨n, hn, ha⟩))
  have hsame := h.mem_dependencies_iff hgraph hgraph' hn hn' hdeclaration hmissing
  rw [requireAll_eq_ok_iff, requireAll_eq_ok_iff]
  simp only [List.forall_mem_map]
  constructor
  · intro hall a ha
    have ha := (hsame a).mpr ha
    obtain ⟨v, hv⟩ := hall a ha
    exact ⟨v, (hfate a ha).eq_of_ok hv⟩
  · intro hall a ha
    obtain ⟨v, hv⟩ := hall a ((hsame a).mp ha)
    exact ⟨v, (hfate a ha).eq_of_ok' hv⟩

/-- Where the dependencies have values, they are seen alike. -/
theorem scopeOf_eq_of_agree (h : AgreeBelow engine engine' address) {n n' : Graph.Node}
    (hn : engine.graph.node? address = some n) (hn' : engine'.graph.node? address = some n')
    (hdeclaration : n'.declaration = n.declaration) (hmissing : n'.missing = n.missing)
    (hmet : requireAll (engine.verdict overlay) (n.dependencies.map .ofAddress) = .ok ()) :
    scopeOf (engine.verdict overlay) n.dependencies
      = scopeOf (engine'.verdict overlay) n'.dependencies := by
  refine scopeOf_eq_of_mem_iff (h.mem_dependencies_iff hgraph hgraph' hn hn' hdeclaration hmissing)
    fun a ha => ?_
  obtain ⟨v, hv⟩ := requireAll_eq_ok_iff.mp hmet _ (List.mem_map_of_mem ha)
  have hfate : SameFate (engine.verdict overlay (.ofAddress a))
      (engine'.verdict overlay (.ofAddress a)) :=
    verdict_sameFate hgraph hgraph' hlibrary hlimit hregular
      (h.dependency (Graph.refers_iff.mpr ⟨n, hn, ha⟩))
  exact hv.trans (hfate.eq_of_ok hv).symm

end Verdicts

/-! ## Nodes that a run settles -/

/-- A node is declared, and if it has a key, its template has been expanded to it. -/
def Existing (engine : Engine) (overlay : Overlay) (node : NodeId) : Prop :=
  engine.Declared node ∧ (node.key = none
    ∨ ∃ n r e, engine.Expands overlay (.ofAddress node.address) n r e ∧ node.key ∈ e.keys)

/-- Whatever a node of a declaration needs exists. -/
theorem existing_of_needs (hgraph : engine.graph.Acyclic) {m : NodeId}
    (hnode : engine.Declared node) (hneeds : engine.Needs overlay node m) :
    engine.Existing overlay m := by
  refine ⟨declared_closed hgraph overlay node m hnode hneeds, ?_⟩
  cases hneeds with
  | dependency => exact .inl rfl
  | member he hkey => exact .inr ⟨_, _, _, he.ofAddress, hkey⟩

theorem existing_closed (hgraph : engine.graph.Acyclic) (overlay : Overlay) :
    Closed engine overlay (engine.Existing overlay) :=
  fun _ _ hnode => existing_of_needs hgraph hnode.1

/-- The same nodes exist in engines that agree. -/
theorem existing_of_agree (hgraph : engine.graph.Acyclic) (hgraph' : engine'.graph.Acyclic)
    (hlibrary : engine.library = engine'.library)
    (hlimit : engine.settings.maxInstances = engine'.settings.maxInstances)
    (hregular : engine.RaisesErrorsOnly overlay) (h : AgreeBelow engine engine' node.address) :
    engine.Existing overlay node ↔ engine'.Existing overlay node := by
  refine and_congr h.self.mem_addresses_iff (or_congr_right ?_)
  have hexpands : ∀ (n n' : Graph.Node) (r : Resource) (e : Expansion),
      engine.graph.node? node.address = some n → engine'.graph.node? node.address = some n' →
      n'.declaration = n.declaration → n'.missing = n.missing →
      (engine.Expands overlay (.ofAddress node.address) n r e
        ↔ engine'.Expands overlay (.ofAddress node.address) n' r e) := by
    intro n n' r e hn hn' hdeclaration hmissing
    have hmet := requireAll_iff_of_agree hgraph hgraph' hlibrary hlimit hregular h hn hn'
      hdeclaration hmissing
    have hscope := scopeOf_eq_of_agree hgraph hgraph' hlibrary hlimit hregular h hn hn'
      hdeclaration hmissing
    constructor
    · rintro ⟨⟨_, hr, hmultiple, _⟩, hnone, hrequired, he⟩
      refine ⟨⟨hn', hdeclaration.trans hr, hmultiple, rfl⟩, hmissing.trans hnone,
        hmet.mp hrequired, ?_⟩
      rw [← expansionOf_eq_of_agree hlibrary (hscope hrequired) hlimit]
      exact he
    · rintro ⟨⟨_, hr, hmultiple, _⟩, hnone, hrequired, he⟩
      have hrequired := hmet.mpr hrequired
      refine ⟨⟨hn, hdeclaration.symm.trans hr, hmultiple, rfl⟩, hmissing.symm.trans hnone,
        hrequired, ?_⟩
      rw [expansionOf_eq_of_agree hlibrary (hscope hrequired) hlimit]
      exact he
  cases hn : engine.graph.node? node.address with
  | none =>
    have hn' := h.self.node?_eq_none hn
    constructor
    · rintro ⟨n, r, e, he, _⟩
      cases hn.symm.trans he.template.declared
    · rintro ⟨n, r, e, he, _⟩
      cases hn'.symm.trans he.template.declared
  | some n =>
    obtain ⟨n', hn', hdeclaration, hmissing⟩ := h.self.exists_node hn
    constructor
    · rintro ⟨m, r, e, he, hkey⟩
      cases hn.symm.trans he.template.declared
      exact ⟨n', r, e, (hexpands n n' r e hn hn' hdeclaration hmissing).mp he, hkey⟩
    · rintro ⟨m, r, e, he, hkey⟩
      cases hn'.symm.trans he.template.declared
      exact ⟨n, r, e, (hexpands n n' r e hn hn' hdeclaration hmissing).mpr he, hkey⟩

/-- What a run from the beginning leaves. -/
structure Finished (engine : Engine) (s : State) : Prop where
  orderly : Orderly engine [] (engine.Existing []) s
  argued : Argued engine [] s
  settled : ∀ a ∈ engine.graph.addresses, s.IsSettled (.ofAddress a)

/-- Without defects and without a limit on failures a run comes to its end. -/
theorem run_finishes (hgraph : engine.graph.Acyclic) (hcheck : engine.graph.checkAcyclic = .ok ())
    (hunlimited : engine.settings.maxErrors = 0) (hregular : engine.RaisesErrorsOnly []) :
    ∃ s, runFrom .initial engine.run = (.ok (engine.reportOf s), s) ∧ Finished engine s := by
  have hinitial := initial_orderly engine (engine.Existing [])
  cases hrun : runFrom .initial engine.run with
  | mk result s =>
    cases result with
    | error stop =>
      obtain ⟨a, ha, d, hdefect, _⟩ := run_stops hgraph hcheck
        (initial_orderly engine engine.Declared) hrun
      exact absurd hdefect (hregular a ha d)
    | ok report =>
      have hpreserves : Preserves
          (fun s => Orderly engine [] (engine.Existing []) s ∧ Argued engine [] s) engine.run :=
        run_preserves (fun a ha => resolveNode_argued hgraph (existing_closed hgraph [])
            ⟨ha, .inl rfl⟩)
          fun _ nodes h => ⟨h.1.report nodes, h.2.of_eq rfl rfl⟩
      have hafter := hpreserves .initial ⟨hinitial, initial_argued engine []⟩
      rw [hrun] at hafter
      refine ⟨s, by rw [report_of_run hrun], hafter.1, hafter.2, ?_⟩
      exact run_settles hgraph hunlimited hinitial hrun

/-- A run settles the nodes that exist. -/
theorem Finished.isSettled_iff (h : Finished engine s) :
    s.IsSettled node ↔ engine.Existing [] node := by
  constructor
  · intro hnode
    obtain ⟨outcome, houtcome⟩ := Option.isSome_iff_exists.mp hnode
    exact h.orderly.sound.admitted node outcome houtcome
  · rintro ⟨hdeclared, hkey | ⟨n, r, e, he, hkey⟩⟩
    · obtain ⟨address, key⟩ := node
      obtain rfl : key = none := hkey
      exact h.settled address hdeclared
    · exact (h.orderly.complete _ (h.settled node.address hdeclared)).needed node
        (.member he hkey)

/-! ## Two runs -/

section Runs

variable (hgraph : engine.graph.Acyclic) (hgraph' : engine'.graph.Acyclic)
  (hlibrary : engine.library = engine'.library)
  (hlimit : engine.settings.maxInstances = engine'.settings.maxInstances)
  (hregular : engine.RaisesErrorsOnly []) (hs : Finished engine s) (hs' : Finished engine' s')

include hgraph hgraph' hlibrary hlimit hregular hs hs'

/-- A node on which the engines agree is settled by both runs or by neither, and in the same way. -/
theorem Finished.settled_cases (h : AgreeBelow engine engine' node.address) :
    (Table.get? s.settled node = none ∧ Table.get? s'.settled node = none)
      ∨ ∃ outcome outcome', Table.get? s.settled node = some outcome
          ∧ Table.get? s'.settled node = some outcome'
          ∧ SameFate outcome.result outcome'.result := by
  have hboth : s.IsSettled node ↔ s'.IsSettled node := by
    rw [hs.isSettled_iff, hs'.isSettled_iff]
    exact existing_of_agree hgraph hgraph' hlibrary hlimit hregular h
  unfold State.IsSettled at hboth
  cases hfound : Table.get? s.settled node with
  | none =>
    rw [hfound] at hboth
    exact .inl ⟨rfl, Option.not_isSome_iff_eq_none.mp fun hsome => nomatch hboth.mpr hsome⟩
  | some outcome =>
    rw [hfound] at hboth
    obtain ⟨outcome', hfound'⟩ := Option.isSome_iff_exists.mp (hboth.mp rfl)
    refine .inr ⟨outcome, outcome', rfl, hfound', ?_⟩
    rw [hs.orderly.sound.settled node outcome hfound,
      hs'.orderly.sound.settled node outcome' hfound']
    exact verdict_sameFate hgraph hgraph' hlibrary hlimit hregular h

theorem Finished.status_eq (h : AgreeBelow engine engine' node.address) :
    s.status node = s'.status node := by
  unfold State.status
  rcases hs.settled_cases hgraph hgraph' hlibrary hlimit hregular hs' h with
    ⟨hnone, hnone'⟩ | ⟨outcome, outcome', hfound, hfound', hfate⟩
  · rw [hnone, hnone']
  · rw [hfound, hfound']
    cases outcome <;> cases outcome' <;> cases hfate
    · rfl
    · rfl
    · rename_i hskipped hskipped'
      simp [hskipped, hskipped']

theorem Finished.value?_eq (h : AgreeBelow engine engine' node.address) :
    s.value? node = s'.value? node := by
  unfold State.value?
  rcases hs.settled_cases hgraph hgraph' hlibrary hlimit hregular hs' h with
    ⟨hnone, hnone'⟩ | ⟨outcome, outcome', hfound, hfound', hfate⟩
  · rw [hnone, hnone']
  · rw [hfound, hfound']
    cases outcome <;> cases outcome' <;> cases hfate <;> rfl

/-- A node that has failed itself has failed in the same way. -/
theorem Finished.failure_eq (h : AgreeBelow engine engine' node.address) {f f' : Failure}
    (hf : Table.get? s.settled node = some (.failure f))
    (hf' : Table.get? s'.settled node = some (.failure f')) (hown : f.isSkipped = false) :
    f = f' := by
  rcases hs.settled_cases hgraph hgraph' hlibrary hlimit hregular hs' h with
    ⟨hnone, _⟩ | ⟨outcome, outcome', hfound, hfound', hfate⟩
  · cases hnone.symm.trans hf
  · cases hfound.symm.trans hf
    cases hfound'.symm.trans hf'
    cases hfate with
    | failed => rfl
    | skipped hskipped =>
      rw [hown] at hskipped
      cases hskipped

/-- An instance with a value has the same arguments. -/
theorem Finished.arguments_eq (h : AgreeBelow engine engine' node.address) {r : Resource}
    (hr : engine.graph.declaration? node.address = some (.resource r))
    (hvalue : (s.value? node).isSome = true) :
    Table.get? s.arguments node = Table.get? s'.arguments node := by
  obtain ⟨v, hv⟩ := Option.isSome_iff_exists.mp hvalue
  have hv' : s'.value? node = some v :=
    (hs.value?_eq hgraph hgraph' hlibrary hlimit hregular hs' h).symm.trans hv
  unfold Graph.declaration? at hr
  obtain ⟨n, hn, hresource⟩ := Option.map_eq_some_iff.mp hr
  obtain ⟨n', hn', hdeclaration, hmissing⟩ := h.self.exists_node hn
  have hresource' := hdeclaration.trans hresource
  have hverdict := hs.orderly.sound.verdict_of_value? hv
  rw [verdict_eq hgraph, conclude_eq_ok_iff] at hverdict
  have hscope := scopeOf_eq_of_agree hgraph hgraph' hlibrary hlimit hregular h hn hn' hdeclaration
    hmissing (required_of_evaluationOf hn hverdict).2
  cases hsingle : node.key.isNone && r.multiplicity.isSome with
  | false =>
    have hone : engine.IsSingle node n r := ⟨hn, hresource, hsingle⟩
    have hone' : engine'.IsSingle node n' r := ⟨hn', hresource', hsingle⟩
    obtain ⟨arguments, harguments⟩ := Option.isSome_iff_exists.mp
      (hs.argued.given node n r hone (by rw [hv]; rfl))
    obtain ⟨arguments', harguments'⟩ := Option.isSome_iff_exists.mp
      (hs'.argued.given node n' r hone' (by rw [hv']; rfl))
    obtain ⟨m, _, _, hm⟩ := hs.argued.right node arguments harguments
    obtain ⟨m', _, _, hm'⟩ := hs'.argued.right node arguments' harguments'
    cases hn.symm.trans hm.single.declared
    cases hn'.symm.trans hm'.single.declared
    cases hresource.symm.trans hm.single.resource
    cases hresource'.symm.trans hm'.single.resource
    have hsame := hm.argumentsOf_eq
    rw [argumentsOf_eq_of_agree hlibrary hscope hlimit, hm'.argumentsOf_eq] at hsame
    cases hsame
    rw [harguments, harguments']
  | true =>
    -- A template has no arguments itself.
    have hnone : ∀ {e : Engine} {t : State}, Argued e [] t → ∀ {m : Graph.Node},
        e.graph.node? node.address = some m → m.declaration = .resource r →
        Table.get? t.arguments node = none := by
      intro e t ht m hm hmr
      by_contra hsome
      obtain ⟨arguments, harguments⟩ := Option.ne_none_iff_exists'.mp hsome
      obtain ⟨m', r', _, hargues⟩ := ht.right node arguments harguments
      cases hm.symm.trans hargues.single.declared
      cases hmr.symm.trans hargues.single.resource
      rw [hargues.single.single] at hsingle
      cases hsingle
    rw [hnone hs.argued hn hresource, hnone hs'.argued hn' hresource']

/-- The same instances of a declaration are listed, and in the same order: that of their keys. -/
theorem Finished.resources_eq (h : AgreeBelow engine engine' address) :
    (engine.reportOf s).resources.filter (fun i => i.node.address == address)
      = (engine'.reportOf s').resources.filter (fun i => i.node.address == address) := by
  have hlisted : ∀ {e : Engine} {t : State}, Argued e [] t →
      ((e.reportOf t).resources.filter (fun i => i.node.address == address)).Pairwise
          (fun i j => InstanceKey.optionAtMost i.node.key j.node.key = true)
        ∧ ((e.reportOf t).resources.filter (fun i => i.node.address == address)).Nodup := by
    intro e t ht
    obtain ⟨hsorted, hdistinct⟩ := ht.reported_resources_sorted
    refine ⟨?_, (List.Nodup.of_map _ hdistinct).filter _⟩
    refine (hsorted.filter _).imp_of_mem fun {i j} hi hj hij => ?_
    have hi : i.node.address = address := by simpa using (List.mem_filter.mp hi).2
    have hj : j.node.address = address := by simpa using (List.mem_filter.mp hj).2
    rw [nodeAtMost_iff, hi, hj] at hij
    exact (hij.resolve_left (Nat.lt_irrefl _)).2
  have hmem : ∀ i, i ∈ (engine.reportOf s).resources.filter (fun i => i.node.address == address)
      ↔ i ∈ (engine'.reportOf s').resources.filter (fun i => i.node.address == address) := by
    intro i
    rw [List.mem_filter, List.mem_filter, hs.argued.mem_reported_resources_iff,
      hs'.argued.mem_reported_resources_iff]
    refine and_congr_left fun haddress => ?_
    have hnode : AgreeBelow engine engine' i.node.address := by
      rwa [show i.node.address = address by simpa using haddress]
    rw [hs.value?_eq hgraph hgraph' hlibrary hlimit hregular hs' hnode, hnode.self.declaration]
    refine and_congr_right fun hvalue => and_congr_left ?_
    rintro ⟨r, hr, _⟩
    rw [hs.arguments_eq hgraph hgraph' hlibrary hlimit hregular hs' hnode
      (hnode.self.declaration.trans hr)
      (by rwa [hs.value?_eq hgraph hgraph' hlibrary hlimit hregular hs' hnode])]
  obtain ⟨hsorted, hdistinct⟩ := hlisted hs.argued
  obtain ⟨hsorted', hdistinct'⟩ := hlisted hs'.argued
  refine ((List.perm_ext_iff_of_nodup hdistinct hdistinct').mpr hmem).eq_of_pairwise ?_ hsorted
    hsorted'
  intro i j hi hj hij hji
  have hkey := InstanceKey.optionAtMost_antisymm _ _ hij hji
  have hi := List.mem_filter.mp hi
  have hj := List.mem_filter.mp ((hmem j).mpr hj)
  have hnode : i.node = j.node := by
    have haddress : i.node.address = j.node.address := by
      rw [show i.node.address = address by simpa using hi.2,
        show j.node.address = address by simpa using hj.2]
    cases hi' : i.node
    cases hj' : j.node
    rw [hi', hj'] at hkey haddress
    dsimp only at hkey haddress
    rw [hkey, haddress]
  exact List.inj_on_of_nodup_map hs.argued.reported_resources_sorted.2 hi.1 hj.1 hnode

end Runs

/-! ## Main statement -/

end Engine

end Groundplan
