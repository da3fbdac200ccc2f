import Groundplan.Proofs.Engine.Completeness
import Groundplan.Proofs.Engine.History

/-!
# Every Call Keeps States Orderly

A state is orderly if it is sound and complete, if only templates with deferred instances are noted
as such, and if its tables have one entry for every key.  All calls from outside keep states
orderly.  Attributes that are supplied take part of the tables away, but only what depends on them;
what is left needs nothing of what has been forgotten.

## Main Definitions

- `Engine.Orderly`: what holds of all states that calls leave

## Main Statements

- `Engine.Orderly.resolveNode`: what a resolution does to an orderly state
- `Engine.merged_orderly`: merging and forgetting keep states orderly
- `Engine.afterAll_kept`: what holds after any calls
-/

namespace Groundplan

namespace Engine

variable {engine : Engine} {overlay : Overlay} {Admitted Admitted' : NodeId → Prop} {s s' : State}

/-! ## Orderly states -/

/-- A sound and complete state with one entry for every node and every deferred template. -/
structure Orderly (engine : Engine) (overlay : Overlay) (Admitted : NodeId → Prop) (s : State) :
    Prop where
  sound : Sound engine overlay Admitted s
  complete : Complete engine overlay s
  defers : ∀ address ∈ s.deferred, engine.Defers overlay address
  distinct : (Table.keys s.settled).Nodup
  once : s.deferred.Nodup

/-- Tables with one entry for every key. -/
def Tidy (s : State) : Prop :=
  (Table.keys s.settled).Nodup ∧ s.deferred.Nodup

theorem tidy_stable : Stable Tidy where
  count _ _ h := h
  settle s node outcome h := ⟨Table.nodup_keys_put s.settled node outcome h.1, h.2⟩
  expand _ _ h := h
  supply _ _ h := h
  defer s address h := by
    refine ⟨h.1, List.nodup_append.mpr ⟨h.2.filter _, by simp, ?_⟩⟩
    intro a ha b hb
    rw [List.mem_singleton.mp hb]
    simpa using (List.mem_filter.mp ha).2

/-- Declarations whose instances are deferred are declared. -/
theorem Defers.mem_addresses {address : String} (h : engine.Defers overlay address) :
    address ∈ engine.graph.addresses := by
  obtain ⟨n, r, e, hexpands, _⟩ := h
  have hn : engine.graph.node? address = some n := hexpands.template.declared
  exact Graph.has_iff_mem_addresses.mp (by rw [Graph.has, hn]; rfl)

namespace Orderly

theorem of_eq (h : Orderly engine overlay Admitted s) (happlied : s'.applied = s.applied)
    (hsettled : s'.settled = s.settled) (hexpansions : s'.expansions = s.expansions)
    (hdeferred : s'.deferred = s.deferred) : Orderly engine overlay Admitted s' := by
  have hextends : Extends s s' := by
    refine ⟨?_, ?_⟩
    · rw [hsettled]
      exact fun _ _ hm => hm
    · rw [hexpansions]
      exact fun _ _ he => he
  have hadvances : Advances engine overlay Admitted s s' := .of_eq hextends hdeferred
  refine ⟨h.sound.of_eq happlied hsettled hexpansions, h.complete.of_eq hsettled hadvances,
    ?_, ?_, ?_⟩
  · rw [hdeferred]
    exact h.defers
  · rw [hsettled]
    exact h.distinct
  · rw [hdeferred]
    exact h.once

theorem report (h : Orderly engine overlay Admitted s) (nodes : List NodeId) :
    Orderly engine overlay Admitted (s.report nodes) :=
  h.of_eq rfl rfl rfl rfl

/-- Other nodes may be admitted as long as all settled ones are. -/
theorem mono (h : Orderly engine overlay Admitted s)
    (hadmitted : ∀ node, s.IsSettled node → Admitted' node) :
    Orderly engine overlay Admitted' s := by
  refine ⟨⟨h.sound.applied, h.sound.settled, fun node outcome hnode => ?_, h.sound.expansions,
    h.sound.aggregated⟩, h.complete, h.defers, h.distinct, h.once⟩
  exact hadmitted node (State.isSettled_of_get? hnode)

/-- What a resolution does to an orderly state. -/
theorem resolveNode (hgraph : engine.graph.Acyclic) (hclosed : Closed engine overlay Admitted)
    (h : Orderly engine overlay Admitted s) {node : NodeId} (hadmitted : Admitted node)
    {r : Except Stop Value} (hrun : runFrom s (engine.resolveNode node) = (r, s')) :
    r = engine.verdict overlay node ∧ Orderly engine overlay Admitted s'
      ∧ Advances engine overlay Admitted s s' ∧ (IsRegular r → s'.IsSettled node) := by
  obtain ⟨hresult, hs', _⟩ :=
    (resolveNode_resolves hgraph hclosed h.sound hadmitted).yields.of_run hrun
  obtain ⟨hcomplete, hadvances, hsettled⟩ :=
    resolveNode_visits hgraph hclosed h.sound h.complete hadmitted r s' hrun
  have htidy : Tidy s' := by
    have hpreserves : Preserves Tidy (engine.resolveNode node) :=
      resolveWithin_preserves tidy_stable (engine.graph.size + 2) node
    have hafter := hpreserves s ⟨h.distinct, h.once⟩
    rwa [hrun] at hafter
  refine ⟨hresult, ⟨hs', hcomplete, fun address hnoted => ?_, htidy.1, htidy.2⟩, hadvances,
    hsettled⟩
  rcases hadvances.noted address hnoted with hearlier | ⟨_, hdefers⟩
  · exact h.defers address hearlier
  · exact hdefers

end Orderly

/-- Resolving a declaration keeps states orderly. -/
theorem resolveNode_orderly (hgraph : engine.graph.Acyclic)
    (hclosed : Closed engine overlay Admitted) {node : NodeId} (hadmitted : Admitted node) :
    Preserves (Orderly engine overlay Admitted) (engine.resolveNode node) :=
  fun _ hs => (hs.resolveNode hgraph hclosed hadmitted Prod.mk.eta.symm).2.1

/-! ## Forgetting -/

section Forgetting

variable {affected : List String}

theorem mem_deferred_forgetAll {address : String} :
    address ∈ (affected.foldl State.forget s).deferred
      ↔ address ∈ s.deferred ∧ address ∉ affected := by
  induction affected generalizing s with
  | nil => simp
  | cons first affected ih =>
    rw [List.foldl_cons, ih]
    simp only [State.forget, List.mem_filter, List.mem_cons]
    grind

theorem tidy_forgetAll (h : Tidy s) : Tidy (affected.foldl State.forget s) := by
  induction affected generalizing s with
  | nil => exact h
  | cons first affected ih =>
    refine ih ⟨?_, h.2.filter _⟩
    exact h.1.sublist (List.filter_sublist.map Prod.fst)

end Forgetting

/-! ## Merging -/

section Merging

variable {node : NodeId} {value : Value} {supplied : Table String Value}

/-- Merging settles nodes, and changes nothing else but what is supplied. -/
theorem merge_stable {P : State → Prop} (hstable : Stable P)
    (happly : ∀ s table, P s → P { s with applied := table }) (h : P s) :
    P (merge s node value supplied) := by
  have hwith : P (withAttributes s node value supplied) :=
    hstable.settle _ _ _ (happly _ _ h)
  rw [merge_eq]
  split
  · rcases reaggregate_eq (withAttributes s node value supplied) node.address with heq | ⟨w, heq⟩
    · rwa [heq]
    · rw [heq]
      exact hstable.settle _ _ _ hwith
  · exact hwith

theorem merge_deferred : (merge s node value supplied).deferred = s.deferred := by
  rw [merge_eq]
  split
  · rcases reaggregate_eq (withAttributes s node value supplied) node.address with h | ⟨w, h⟩ <;>
      rw [h] <;> rfl
  · rfl

/-- Nothing is unsettled. -/
theorem IsSettled.merge {m : NodeId} (hm : s.IsSettled m) :
    (merge s node value supplied).IsSettled m := by
  have hsettle : ∀ (t : State) (other : NodeId) (outcome : Settled), t.IsSettled m →
      (t.settle other outcome).IsSettled m := by
    intro t other outcome ht
    unfold State.IsSettled State.settle
    rw [Table.get?_put]
    split
    · rfl
    · exact ht
  have hwith : (withAttributes s node value supplied).IsSettled m := hsettle _ _ _ hm
  rw [merge_eq]
  split
  · rcases reaggregate_eq (withAttributes s node value supplied) node.address with h | ⟨w, h⟩
    · rwa [h]
    · rw [h]
      exact hsettle _ _ _ hwith
  · exact hwith

/-- Templates that do not depend on the declaration make the same expansions. -/
theorem expands_iff_of_unrelated {m : NodeId} {n : Graph.Node} {r : Resource} {e : Expansion}
    (hunrelated : ¬ Relation.TransGen engine.graph.Refers m.address node.address) :
    engine.Expands (supply overlay node supplied) m n r e ↔ engine.Expands overlay m n r e := by
  have hdependencies : engine.IsTemplate m n r → ∀ d ∈ n.dependencies,
      engine.verdict overlay (.ofAddress d)
        = engine.verdict (supply overlay node supplied) (.ofAddress d) :=
    fun htemplate d hd => Supplied.verdict_dependency supplied hunrelated
      (Graph.refers_iff.mpr ⟨n, htemplate.declared, hd⟩)
  have hrequired : engine.IsTemplate m n r →
      requireAll (engine.verdict overlay) (n.dependencies.map .ofAddress)
        = requireAll (engine.verdict (supply overlay node supplied))
            (n.dependencies.map .ofAddress) := by
    intro htemplate
    refine requireAll_congr fun x hx => ?_
    obtain ⟨d, hd, rfl⟩ := List.mem_map.mp hx
    exact hdependencies htemplate d hd
  constructor
  · rintro ⟨htemplate, hmissing, hmet, he⟩
    exact ⟨htemplate, hmissing, (hrequired htemplate).trans hmet,
      (expansionOf_congr (hdependencies htemplate)).trans he⟩
  · rintro ⟨htemplate, hmissing, hmet, he⟩
    exact ⟨htemplate, hmissing, (hrequired htemplate).symm.trans hmet,
      (expansionOf_congr (hdependencies htemplate)).symm.trans he⟩

/-- Settled are still the nodes that do not depend on the declaration. -/
theorem isSettled_merged_iff (hgraph : engine.graph.Acyclic) (hvalue : s.value? node = some value)
    (m : NodeId) : (engine.merged s node value supplied).IsSettled m
      ↔ ¬ Relation.TransGen engine.graph.Refers m.address node.address ∧ s.IsSettled m := by
  have hnode : s.IsSettled node := State.isSettled_of_value? hvalue
  rw [← Graph.mem_dependentsClosure_iff hgraph.distinct]
  unfold State.IsSettled merged
  dsimp only
  rw [get?_settled_forgetAll]
  by_cases haffected : m.address ∈ engine.graph.dependentsClosure [node.address]
  · simp [haffected]
  · rw [if_neg haffected]
    exact ⟨fun hm => ⟨haffected, isSome_of_get?_merge hnode hm⟩, fun hm => IsSettled.merge hm.2⟩

/-- What is left needs nothing of what has been forgotten. -/
theorem merged_complete (hgraph : engine.graph.Acyclic) (hcomplete : Complete engine overlay s)
    (hvalue : s.value? node = some value) :
    Complete engine (supply overlay node supplied) (engine.merged s node value supplied) := by
  intro m hm
  obtain ⟨hunrelated, hm⟩ := (isSettled_merged_iff hgraph hvalue m).mp hm
  obtain ⟨hneeded, hexpanded, hnoted⟩ := hcomplete m hm
  have hkept : m.address ∉ engine.graph.dependentsClosure [node.address] := by
    rwa [Graph.mem_dependentsClosure_iff hgraph.distinct]
  refine ⟨fun x hneeds => ?_, fun n r e he => ?_, fun n r e he hdeferred => ?_⟩
  · rw [isSettled_merged_iff hgraph hvalue]
    cases hneeds with
    | dependency hn hmissing hd =>
      refine ⟨fun hpath => hunrelated (.head (Graph.refers_iff.mpr ⟨_, hn, hd⟩) hpath), ?_⟩
      exact hneeded _ (.dependency hn hmissing hd)
    | member he hkey =>
      exact ⟨hunrelated, hneeded _ (.member ((expands_iff_of_unrelated hunrelated).mp he) hkey)⟩
  · unfold merged
    dsimp only
    rw [get?_expansions_forgetAll, if_neg hkept, merge_expansions]
    have hwhole : ¬ Relation.TransGen engine.graph.Refers (NodeId.ofAddress m.address).address
        node.address := hunrelated
    exact hexpanded n r e ((expands_iff_of_unrelated hwhole).mp he)
  · unfold merged
    dsimp only
    rw [mem_deferred_forgetAll, merge_deferred]
    exact ⟨hnoted n r e ((expands_iff_of_unrelated hunrelated).mp he) hdeferred, hkept⟩

/-- Merging and forgetting keep states orderly for what has been supplied. -/
theorem merged_orderly (hgraph : engine.graph.Acyclic) (h : Orderly engine overlay Admitted s)
    (hdistinct : Distinct overlay) (hcheck : engine.checkApplicable node = .ok ())
    (hvalue : s.value? node = some value)
    (hadmitted : ∀ m, Admitted m →
      ¬ Relation.TransGen engine.graph.Refers m.address node.address → Admitted' m) :
    Orderly engine (supply overlay node supplied) Admitted'
      (engine.merged s node value supplied) := by
  have htidy : Tidy (engine.merged s node value supplied) :=
    tidy_forgetAll (merge_stable tidy_stable (fun _ _ h => h) ⟨h.distinct, h.once⟩)
  refine ⟨merged_sound hgraph h.sound hdistinct supplied hcheck hvalue hadmitted,
    merged_complete hgraph h.complete hvalue, fun address hnoted => ?_, htidy.1, htidy.2⟩
  unfold merged at hnoted
  dsimp only at hnoted
  rw [mem_deferred_forgetAll, merge_deferred,
    Graph.mem_dependentsClosure_iff hgraph.distinct] at hnoted
  obtain ⟨n, r, e, he, hdeferred⟩ := h.defers address hnoted.1
  exact ⟨n, r, e, (expands_iff_of_unrelated hnoted.2).mpr he, hdeferred⟩

end Merging

/-! ## Calls -/

/-- The nodes of declarations. -/
def Declared (engine : Engine) (node : NodeId) : Prop :=
  node.address ∈ engine.graph.addresses

theorem declared_closed (hgraph : engine.graph.Acyclic) (overlay : Overlay) :
    Closed engine overlay engine.Declared :=
  ((declared_lasting engine).admits overlay).closed hgraph

theorem initial_orderly (engine : Engine) (Admitted : NodeId → Prop) :
    Orderly engine [] Admitted .initial := by
  refine ⟨fresh_sound engine [] Admitted, fun node hnode => ?_, nofun, List.nodup_nil,
    List.nodup_nil⟩
  cases hnode

/-- What holds of all states that calls leave. -/
structure Kept (engine : Engine) (s : State) : Prop where
  distinct : Distinct s.applied
  orderly : Orderly engine s.applied engine.Declared s

/-- Every call keeps states orderly. -/
theorem after_kept (hgraph : engine.graph.Acyclic) (h : Kept engine s) (c : Call) :
    Kept engine (engine.after s c) := by
  obtain ⟨hdistinct, hs⟩ := h
  have hresolve : ∀ overlay, ∀ address ∈ engine.graph.addresses,
      Preserves (Orderly engine overlay engine.Declared)
        (engine.resolveNode (.ofAddress address)) :=
    fun overlay address haddress =>
      resolveNode_orderly hgraph (declared_closed hgraph overlay) haddress
  have hsame : ∀ {overlay : Overlay} {t : State}, Orderly engine overlay engine.Declared t →
      Orderly engine t.applied engine.Declared t := by
    intro overlay t ht
    rw [ht.sound.applied]
    exact ht
  refine ⟨(after_invariant hgraph (declared_lasting engine) ⟨hdistinct, hs.sound⟩ c
    fun node _ hdeclared _ => hdeclared).distinct, ?_⟩
  cases c with
  | resolve node =>
    refine hsame (resolve_preserves (fun hdeclared => ?_) s hs)
    exact resolveNode_orderly hgraph (declared_closed hgraph _)
      (Graph.has_iff_mem_addresses.mp hdeclared)
  | run => exact hsame (run_preserves (hresolve _) (fun _ nodes ht => ht.report nodes) s hs)
  | apply node attributes =>
    rcases apply_cases engine s node attributes with
      ⟨fault, hrun⟩ | ⟨supplied, value, hcheck, _, hvalue, hrun⟩
    · rw [after, hrun]
      exact hs
    · rw [after, hrun]
      exact hsame (resumption_preserves (hresolve _) (fun _ nodes ht => ht.report nodes)
        node.address _ (merged_orderly hgraph hs hdistinct hcheck hvalue fun _ hm _ => hm))

/-- States are orderly after any calls. -/
theorem afterAll_kept (hgraph : engine.graph.Acyclic) (calls : List Call) :
    Kept engine (engine.afterAll calls) := by
  suffices hfrom : ∀ s, Kept engine s → Kept engine (calls.foldl engine.after s) from
    hfrom _ ⟨fun _ => List.nodup_nil, initial_orderly engine _⟩
  induction calls with
  | nil => exact fun s hs => hs
  | cons c calls ih => exact fun s hs => ih _ (after_kept hgraph hs c)

end Engine

end Groundplan
