import Groundplan.Proofs.Engine.Orderly

/-!
# Reports Depend on What Has Been Settled

A report sorts what a state keeps by the places of the declarations and by keys.  So it does not
matter in which order nodes have been settled: orderly states that keep the same about every node
have the same values, outputs and failures in their reports, and the same deferred templates.

## Main Definitions

- `Engine.Alike`: two states keep the same about every node

## Main Statements

- `Engine.Alike.report`: reports on such states agree
-/

namespace Groundplan

namespace Engine

/-! ## The order of nodes -/

section Order

variable (g : Graph)

theorem nodeAtMost_iff {a b : NodeId} :
    nodeAtMost g a b = true ↔ g.position a.address < g.position b.address
      ∨ g.position a.address = g.position b.address
        ∧ InstanceKey.optionAtMost a.key b.key = true := by
  simp [nodeAtMost]

theorem nodeAtMost_total (a b : NodeId) : nodeAtMost g a b = true ∨ nodeAtMost g b a = true := by
  rw [nodeAtMost_iff, nodeAtMost_iff]
  rcases Nat.lt_trichotomy (g.position a.address) (g.position b.address) with h | h | h
  · exact .inl (.inl h)
  · rcases InstanceKey.optionAtMost_total a.key b.key with hkey | hkey
    · exact .inl (.inr ⟨h, hkey⟩)
    · exact .inr (.inr ⟨h.symm, hkey⟩)
  · exact .inr (.inl h)

theorem nodeAtMost_trans (a b c : NodeId) (h : nodeAtMost g a b = true)
    (h' : nodeAtMost g b c = true) : nodeAtMost g a c = true := by
  rw [nodeAtMost_iff] at h h' ⊢
  rcases h with h | ⟨h, hkey⟩
  · rcases h' with h' | ⟨h', _⟩
    · exact .inl (Nat.lt_trans h h')
    · exact .inl (h' ▸ h)
  · rcases h' with h' | ⟨h', hkey'⟩
    · exact .inl (h ▸ h')
    · exact .inr ⟨h.trans h', InstanceKey.optionAtMost_trans _ _ _ hkey hkey'⟩

/-- Declared nodes of which neither comes after the other are the same. -/
theorem nodeAtMost_antisymm {a b : NodeId} (ha : a.address ∈ g.addresses)
    (h : nodeAtMost g a b = true) (h' : nodeAtMost g b a = true) : a = b := by
  rw [nodeAtMost_iff] at h h'
  have hposition : g.position a.address = g.position b.address := by omega
  have hkey : a.key = b.key := by
    rcases h with h | ⟨_, hkey⟩
    · omega
    · rcases h' with h' | ⟨_, hkey'⟩
      · omega
      · exact InstanceKey.optionAtMost_antisymm _ _ hkey hkey'
  have haddress : a.address = b.address := (List.idxOf_inj ha).mp hposition
  obtain ⟨address, key⟩ := a
  obtain ⟨address', key'⟩ := b
  dsimp only at haddress hkey
  rw [haddress, hkey]

/-- Lists of the same elements are sorted alike if their nodes tell them apart. -/
theorem sortBy_node_eq_of_perm {α : Type} (node : α → NodeId) {xs ys : List α}
    (same : xs.Perm ys) (hdeclared : ∀ x ∈ xs, (node x).address ∈ g.addresses)
    (hnode : ∀ x ∈ xs, ∀ y ∈ xs, node x = node y → x = y) :
    Sorting.sortBy (fun a b => nodeAtMost g (node a) (node b)) xs
      = Sorting.sortBy (fun a b => nodeAtMost g (node a) (node b)) ys := by
  refine Sorting.sortBy_eq_of_perm (fun x y => nodeAtMost_total g (node x) (node y))
    (fun x y z => nodeAtMost_trans g (node x) (node y) (node z)) same ?_
  intro x hx y hy h h'
  exact hnode x hx y hy (nodeAtMost_antisymm g (hdeclared x hx) h h')

end Order

/-! ## Failures -/

variable {engine : Engine} {overlay : Overlay} {Admitted : NodeId → Prop} {s s' : State}

/-- The verdict on a node tells of that node's failure. -/
theorem node_of_verdict (hgraph : engine.graph.Acyclic) {node : NodeId} {f : Failure}
    (h : engine.verdict overlay node = .error (.unresolved f)) : f.node = node := by
  rw [verdict_eq hgraph] at h
  rcases hresult : engine.evaluationOf overlay (engine.verdict overlay) node with
    (f' | ⟨e | d⟩) | v <;> rw [hresult] at h <;> cases h <;> rfl

theorem Sound.node_of_failure (hgraph : engine.graph.Acyclic)
    (hs : Sound engine overlay Admitted s) {node : NodeId} {f : Failure}
    (h : Table.get? s.settled node = some (.failure f)) : f.node = node :=
  node_of_verdict hgraph (hs.settled node _ h).symm

theorem mem_failures_iff (hdistinct : (Table.keys s.settled).Nodup) {f : Failure} :
    f ∈ s.failures ↔ ∃ node, Table.get? s.settled node = some (.failure f) := by
  unfold State.failures
  rw [List.mem_filterMap]
  constructor
  · rintro ⟨⟨node, outcome⟩, hmem, houtcome⟩
    cases outcome with
    | value v => cases houtcome
    | failure f' =>
      cases houtcome
      exact ⟨node, (Table.mem_iff_get?_eq_some hdistinct).mp hmem⟩
  · rintro ⟨node, hnode⟩
    exact ⟨(node, .failure f), (Table.mem_iff_get?_eq_some hdistinct).mpr hnode, rfl⟩

/-! ## What a report tells of a node -/

section Nodes

variable (hs : Orderly engine overlay Admitted s)

include hs

/-- The values in a report are those that nodes have. -/
theorem Orderly.reported_value_iff {node : NodeId} {v : Value} :
    (engine.reportOf s).value? node = some v ↔ s.value? node = some v := by
  have hmem : ∀ m w, (m, w) ∈ (engine.reportOf s).values ↔ s.value? m = some w := by
    intro m w
    show (m, w) ∈ Sorting.sortBy _ (s.settled.filterMap fun entry =>
      (s.value? entry.1).map (entry.1, ·)) ↔ _
    rw [Sorting.mem_sortBy, List.mem_filterMap]
    constructor
    · rintro ⟨_, _, hentry⟩
      obtain ⟨_, hv, hsame⟩ := Option.map_eq_some_iff.mp hentry
      cases hsame
      exact hv
    · intro hw
      have hsettled := (Table.mem_iff_get?_eq_some hs.distinct).mpr (value?_eq_some_iff.mp hw)
      exact ⟨_, hsettled, by simp [hw]⟩
  have hdistinct : (Table.keys (engine.reportOf s).values).Nodup := by
    have hkeys : (Table.keys (s.settled.filterMap fun entry =>
        (s.value? entry.1).map (entry.1, ·))).Sublist (Table.keys s.settled) := by
      generalize s.settled = settled
      induction settled with
      | nil => exact .slnil
      | cons entry rest ih =>
        rw [List.filterMap_cons]
        split
        · exact ih.cons _
        · rename_i hentry
          obtain ⟨_, _, rfl⟩ := Option.map_eq_some_iff.mp hentry
          exact ih.cons_cons _
    exact ((Sorting.sortBy_perm _ _).map Prod.fst).nodup_iff.mpr (hs.distinct.sublist hkeys)
  unfold Report.value?
  rw [← Table.mem_iff_get?_eq_some hdistinct, hmem]

/-- The failures in a report are those that have become of nodes. -/
theorem Orderly.mem_reported_failures_iff (hgraph : engine.graph.Acyclic) {f : Failure} :
    f ∈ (engine.reportOf s).failures ↔ Table.get? s.settled f.node = some (.failure f) := by
  show f ∈ Sorting.sortBy _ s.failures ↔ _
  rw [Sorting.mem_sortBy, mem_failures_iff hs.distinct]
  constructor
  · rintro ⟨node, hnode⟩
    rw [hs.sound.node_of_failure hgraph hnode]
    exact hnode
  · exact fun h => ⟨_, h⟩

end Nodes

/-! ## Reports -/

/-- Two states keep the same about every node, and note the same deferred templates. -/
structure Alike (s s' : State) : Prop where
  settled : ∀ node, Table.get? s.settled node = Table.get? s'.settled node
  deferred : ∀ address, address ∈ s.deferred ↔ address ∈ s'.deferred

theorem Alike.value? (h : Alike s s') (node : NodeId) : s.value? node = s'.value? node := by
  unfold State.value?
  rw [h.settled]

section Reports

variable (hadmitted : ∀ node, Admitted node → node.address ∈ engine.graph.addresses)
  (hs : Orderly engine overlay Admitted s) (hs' : Orderly engine overlay Admitted s')
  (h : Alike s s')

include hadmitted hs hs' h

/-- The entries of the tables may stand in different orders, and the nodes tell them apart. -/
theorem Alike.values_eq : (engine.reportOf s).values = (engine.reportOf s').values := by
  have hsettled := Table.perm_of_get?_eq hs.distinct hs'.distinct h.settled
  have hvalues : ∀ entry ∈ s.settled.filterMap fun entry =>
        (s.value? entry.1).map (entry.1, ·), s.value? entry.1 = some entry.2 := by
    intro entry hentry
    obtain ⟨_, _, hentry⟩ := List.mem_filterMap.mp hentry
    obtain ⟨v, hv, rfl⟩ := Option.map_eq_some_iff.mp hentry
    exact hv
  have hperm : (s.settled.filterMap fun entry => (s.value? entry.1).map (entry.1, ·)).Perm
      (s'.settled.filterMap fun entry => (s'.value? entry.1).map (entry.1, ·)) := by
    rw [show s.value? = s'.value? from funext h.value?]
    exact hsettled.filterMap _
  refine sortBy_node_eq_of_perm engine.graph Prod.fst hperm ?_ ?_
  · intro entry hentry
    have hnode := value?_eq_some_iff.mp (hvalues entry hentry)
    exact hadmitted _ (hs.sound.admitted _ _ hnode)
  · rintro ⟨node, v⟩ hv ⟨node', w⟩ hw hsame
    have hv := hvalues _ hv
    have hw := hvalues _ hw
    dsimp only at hsame hv hw
    subst hsame
    rw [hv] at hw
    cases hw
    rfl

/-- A failure tells of which node it is. -/
theorem Alike.failures_eq (hgraph : engine.graph.Acyclic) :
    (engine.reportOf s).failures = (engine.reportOf s').failures := by
  have hsettled := Table.perm_of_get?_eq hs.distinct hs'.distinct h.settled
  have hfailure : ∀ f ∈ s.failures, Table.get? s.settled f.node = some (.failure f) := by
    intro f hf
    obtain ⟨node, hnode⟩ := (mem_failures_iff hs.distinct).mp hf
    rw [hs.sound.node_of_failure hgraph hnode]
    exact hnode
  refine sortBy_node_eq_of_perm engine.graph Failure.node (hsettled.filterMap _) ?_ ?_
  · exact fun f hf => hadmitted _ (hs.sound.admitted _ _ (hfailure f hf))
  · intro f hf g hg hsame
    have hf := hfailure f hf
    have hg := hfailure g hg
    rw [hsame, hg] at hf
    cases hf
    rfl

omit hadmitted in
theorem Alike.deferred_eq : (engine.reportOf s).deferred = (engine.reportOf s').deferred := by
  -- What is noted stands once in both lists.
  have hnodup := (List.perm_ext_iff_of_nodup hs.once hs'.once).mpr h.deferred
  refine sortBy_node_eq_of_perm engine.graph id (hnodup.map NodeId.ofAddress) ?_ ?_
  · intro node hnode
    obtain ⟨address, haddress, rfl⟩ := List.mem_map.mp hnode
    exact (hs.defers address haddress).mem_addresses
  · exact fun _ _ _ _ hsame => hsame

/-- Reports on orderly states that keep the same agree. -/
theorem Alike.report (hgraph : engine.graph.Acyclic) :
    (engine.reportOf s).values = (engine.reportOf s').values
      ∧ (engine.reportOf s).outputs = (engine.reportOf s').outputs
      ∧ (engine.reportOf s).failures = (engine.reportOf s').failures
      ∧ (engine.reportOf s).deferred = (engine.reportOf s').deferred := by
  refine ⟨h.values_eq hadmitted hs hs', ?_, h.failures_eq hadmitted hs hs' hgraph,
    h.deferred_eq hs hs'⟩
  -- Outputs are listed in the order of the declarations.
  show (engine.outputsWithValue s).map _ = (engine.outputsWithValue s').map _
  unfold outputsWithValue
  rw [show s.value? = s'.value? from funext h.value?]

end Reports

end Engine

end Groundplan
