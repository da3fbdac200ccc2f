import Groundplan.Proofs.Engine.UpToDate

/-!
# Why a Node Has No Value

A node without a value has failed itself, or it has been skipped because it needs another node
without a value.  The chain of a failure leads from one such node to the next.  Each link goes to a
dependency or from a template to one of its instances, and always to the first one that has no
value.  At the end of the chain is the node that has failed, and the error is that node's own.

## Main Definitions

- `Engine.Link`: a node is skipped because of another one
- `Engine.Skips`: why a declaration is skipped
- `Engine.Accounted`: all failures are accounted for

## Main Statements

- `Engine.evaluationOf_eq_unresolved_iff`: when an evaluation stops at the failure of another node
- `Engine.Orderly.failure_cases`: a failure is the node's own or that of the next node
- `Engine.Orderly.chain_links`: the chain of a failure, by induction on its length
- `Engine.UpToDate.accounted`
-/

namespace Groundplan

namespace Engine

variable {engine : Engine} {overlay : Overlay} {Admitted : NodeId → Prop} {s : State}

/-! ## Evaluations that stop at the failure of another node -/

section Stops

variable {results : NodeId → Except Stop Value} {n : Graph.Node} {node : NodeId} {g : Failure}

theorem ofFault_ne_unresolved {α : Type} (o : Outcome α) : ofFault o ≠ .error (.unresolved g) := by
  cases o <;> nofun

/-- The evaluation of an instance never stops at the failure of another node. -/
theorem instanceResult_ne_unresolved {r : Resource} {e : Expansion} :
    engine.instanceResult overlay results n r node e ≠ .error (.unresolved g) := by
  unfold instanceResult
  intro h
  dsimp only at h
  split at h
  · cases h
  · rcases bind_eq_error_iff.mp h with h | ⟨_, _, h⟩
    · exact ofFault_ne_unresolved _ h
    · cases h

/-- A template stops at the failure of one of its instances. -/
theorem templateResult_eq_unresolved_iff {r : Resource} :
    engine.templateResult results n r = .error (.unresolved g)
      ↔ ∃ e, engine.expansionOf results n r = .ok e ∧ e.isDeferred = false
          ∧ requireAll results (e.keys.map fun key => ⟨r.address, key⟩)
            = .error (.unresolved g) := by
  constructor
  · intro h
    unfold templateResult at h
    rcases bind_eq_error_iff.mp h with h | ⟨e, he, h⟩
    · exact absurd h (ofFault_ne_unresolved _)
    · cases hdeferred : e.isDeferred with
      | true =>
        rw [hdeferred] at h
        cases h
      | false =>
        rw [hdeferred] at h
        refine ⟨e, ofFault_eq_ok_iff.mp he, hdeferred, ?_⟩
        rcases bind_eq_error_iff.mp h with h | ⟨_, _, h⟩
        · exact h
        · cases h
  · rintro ⟨e, he, hdeferred, hstops⟩
    rw [templateResult_eq he hdeferred]
    exact bind_eq_error_iff.mpr (.inl hstops)

/-- A node whose dependencies have values stops at the failure of another node only if it is a
template. -/
theorem declarationResult_eq_unresolved_iff (hn : engine.graph.node? node.address = some n) :
    engine.declarationResult overlay results n node = .error (.unresolved g)
      ↔ ∃ r, engine.IsTemplate node n r
          ∧ engine.templateResult results n r = .error (.unresolved g) := by
  unfold declarationResult
  constructor
  · intro h
    cases hdeclaration : n.declaration with
    | input v | localValue v | output o =>
      rw [hdeclaration] at h
      exact absurd h (ofFault_ne_unresolved _)
    | resource r =>
      rw [hdeclaration] at h
      dsimp only at h
      split at h
      · rename_i htemplate
        obtain ⟨hwhole, hmultiple⟩ := Bool.and_eq_true_iff.mp htemplate
        exact ⟨r, ⟨hn, hdeclaration, hmultiple, Option.isNone_iff_eq_none.mp hwhole⟩, h⟩
      · rcases bind_eq_error_iff.mp h with h | ⟨_, _, h⟩
        · exact absurd h (ofFault_ne_unresolved _)
        · exact absurd h instanceResult_ne_unresolved
  · rintro ⟨r, htemplate, h⟩
    rw [htemplate.resource]
    dsimp only
    rwa [htemplate.whole, htemplate.multiple]

/-- An evaluation stops at the failure of a dependency, or else at that of an instance. -/
theorem evaluationOf_eq_unresolved_iff (hn : engine.graph.node? node.address = some n) :
    engine.evaluationOf overlay results node = .error (.unresolved g)
      ↔ n.missing = [] ∧ (requireAll results (n.dependencies.map .ofAddress)
            = .error (.unresolved g)
          ∨ requireAll results (n.dependencies.map .ofAddress) = .ok ()
            ∧ ∃ r e, engine.IsTemplate node n r ∧ engine.expansionOf results n r = .ok e
              ∧ e.isDeferred = false
              ∧ requireAll results (e.keys.map fun key => ⟨r.address, key⟩)
                = .error (.unresolved g)) := by
  unfold evaluationOf
  rw [hn]
  dsimp only
  cases hmissing : n.missing with
  | cons first others =>
    constructor
    · intro h
      cases h
    · rintro ⟨h, _⟩
      cases h
  | nil =>
    dsimp only
    rw [bind_eq_error_iff]
    constructor
    · rintro (h | ⟨_, hrequired, h⟩)
      · exact ⟨rfl, .inl h⟩
      · obtain ⟨r, htemplate, h⟩ := (declarationResult_eq_unresolved_iff hn).mp h
        obtain ⟨e, h⟩ := templateResult_eq_unresolved_iff.mp h
        exact ⟨rfl, .inr ⟨hrequired, r, e, htemplate, h⟩⟩
    · rintro ⟨_, h | ⟨hrequired, r, e, htemplate, h⟩⟩
      · exact .inl h
      · refine .inr ⟨(), hrequired, (declarationResult_eq_unresolved_iff hn).mpr ⟨r, htemplate, ?_⟩⟩
        exact templateResult_eq_unresolved_iff.mpr ⟨e, h⟩

end Stops

/-! ## Settled nodes and their verdicts -/

namespace Sound

variable (hs : Sound engine overlay Admitted s)

include hs

/-- A settled node is resolved if its verdict is a value. -/
theorem status_eq_resolved_iff {node : NodeId} (hnode : s.IsSettled node) :
    s.status node = .resolved ↔ ∃ v, engine.verdict overlay node = .ok v := by
  rw [State.status_eq_resolved_iff, Option.isSome_iff_exists]
  obtain ⟨outcome, houtcome⟩ := Option.isSome_iff_exists.mp hnode
  have hresult := hs.settled node outcome houtcome
  refine exists_congr fun v => ?_
  rw [value?_eq_some_iff, houtcome, ← hresult]
  cases outcome <;> simp [Settled.result]

/-- What settled nodes make of a requirement: all of them have values, or the first one that has
none is settled with the failure that is met. -/
theorem requireAll_cases {α : Type} {xs : List α} {node : α → NodeId}
    (hsettled : ∀ x ∈ xs, s.IsSettled (node x)) :
    requireAll (engine.verdict overlay) (xs.map node) = .ok ()
        ∧ (∀ x ∈ xs, s.status (node x) = .resolved)
      ∨ ∃ earlier x later g, xs = earlier ++ x :: later
          ∧ requireAll (engine.verdict overlay) (xs.map node) = .error (.unresolved g)
          ∧ Table.get? s.settled (node x) = some (.failure g)
          ∧ s.status (node x) ≠ .resolved ∧ ∀ y ∈ earlier, s.status (node y) = .resolved := by
  cases hrequired : requireAll (engine.verdict overlay) (xs.map node) with
  | ok _ =>
    refine .inl ⟨rfl, fun x hx => ?_⟩
    apply (hs.status_eq_resolved_iff (hsettled x hx)).mpr
    exact requireAll_eq_ok_iff.mp hrequired _ (List.mem_map_of_mem hx)
  | error stop =>
    rcases stop with g | fault
    · obtain ⟨_, hfound⟩ := requireAll_eq_unresolved_iff.mp hrequired
      rw [List.findSome?_map] at hfound
      obtain ⟨earlier, x, later, rfl, hfailure, hearlier⟩ := List.findSome?_eq_some_iff.mp hfound
      have hvalued : ∀ y ∈ earlier ++ x :: later, s.status (node y) = .resolved
          ↔ failureOf? (engine.verdict overlay (node y)) = none := by
        intro y hy
        obtain ⟨outcome, houtcome⟩ := Option.isSome_iff_exists.mp (hsettled y hy)
        rw [hs.status_eq_resolved_iff (hsettled y hy), ← hs.settled _ outcome houtcome]
        cases outcome <;> simp [Settled.result, failureOf?]
      obtain ⟨outcome, houtcome⟩ := Option.isSome_iff_exists.mp (hsettled x (by simp))
      rw [Function.comp_apply] at hfailure
      refine .inr ⟨earlier, x, later, g, rfl, rfl, ?_, ?_, fun y hy => ?_⟩
      · rw [← hs.settled _ outcome houtcome] at hfailure
        cases outcome with
        | value v => cases hfailure
        | failure f =>
          cases hfailure
          exact houtcome
      · rw [ne_eq, hvalued x (by simp), hfailure]
        simp
      · exact (hvalued y (by simp [hy])).mpr (hearlier y hy)
    · -- What is settled is never a fault.
      obtain ⟨m, hm, hfault⟩ := exists_fault_of_requireAll hrequired
      obtain ⟨x, hx, rfl⟩ := List.mem_map.mp hm
      obtain ⟨outcome, houtcome⟩ := Option.isSome_iff_exists.mp (hsettled x hx)
      rw [← hs.settled _ outcome houtcome] at hfault
      cases outcome <;> cases hfault

end Sound

/-! ## Links -/

/-- The first one without a value of the nodes that a node needs.  Dependencies count in the order of
the declarations; the instances of a template count once they all have values, in the order of
their keys. -/
inductive Link (engine : Engine) (s : State) (node : NodeId) : NodeId → Prop where
  | dependency {n : Graph.Node} {d : String} (declared : engine.graph.node? node.address = some n)
      (complete : n.missing = []) (refers : d ∈ n.dependencies)
      (unresolved : s.status (.ofAddress d) ≠ .resolved)
      (first : ∀ x ∈ n.dependencies, engine.graph.position x < engine.graph.position d →
        s.status (.ofAddress x) = .resolved) :
      Link engine s node (.ofAddress d)
  | member {n : Graph.Node} {r : Resource} {e : Expansion} {key : Option InstanceKey}
      (template : engine.IsTemplate node n r) (complete : n.missing = [])
      (required : ∀ d ∈ n.dependencies, s.status (.ofAddress d) = .resolved)
      (expanded : Table.get? s.expansions node.address = some e) (exists_key : key ∈ e.keys)
      (unresolved : s.status ⟨node.address, key⟩ ≠ .resolved)
      (first : ∀ k ∈ e.keys, k ≠ key → InstanceKey.optionAtMost k key = true →
        s.status ⟨node.address, k⟩ = .resolved) :
      Link engine s node ⟨node.address, key⟩

/-- The keys of an expansion are in their order. -/
theorem keys_sorted {results : NodeId → Except Stop Value} {n : Graph.Node} {r : Resource}
    {e : Expansion} (htemplate : r.multiplicity.isSome = true)
    (he : engine.expansionOf results n r = .ok e) :
    e.keys.Pairwise (InstanceKey.optionAtMost · · = true) := by
  obtain ⟨source, span, hvalue⟩ := ofValue_of_expansionOf htemplate he
  rcases cases_of_ofValue hvalue with rfl | ⟨count, rfl⟩ | ⟨entries, rfl⟩
  · exact .nil
  · rw [Expansion.counted, List.pairwise_map]
    refine List.pairwise_lt_range.imp fun hless => ?_
    exact decide_eq_true (Int.ofNat_le.mpr hless.le)
  · rw [Expansion.named, List.pairwise_map]
    exact (Sorting.sortKeys_sorted entries).imp fun hless => decide_eq_true hless

/-- Of a sorted list only what lies before an element is less. -/
theorem mem_earlier_of_pairwise {α : Type} {R : α → α → Prop} {earlier later : List α} {x y : α}
    (hsorted : (earlier ++ x :: later).Pairwise R) (hy : y ∈ earlier ++ x :: later) (hne : y ≠ x)
    (hless : ¬ R x y) : y ∈ earlier := by
  rcases List.mem_append.mp hy with hy | hy
  · exact hy
  · have hlater := (List.mem_cons.mp hy).resolve_left hne
    exact absurd ((List.pairwise_cons.mp (List.pairwise_append.mp hsorted).2.1).1 y hlater) hless

section Chains

variable (hgraph : engine.graph.Acyclic) (harranged : engine.graph.Arranged)
  (h : Orderly engine overlay Admitted s)

include hgraph harranged h

/-- A node that stops at a failure is linked to the node whose failure it is. -/
theorem Orderly.link_of_unresolved {node : NodeId} {g : Failure} (hnode : s.IsSettled node)
    (hstops : engine.evaluationOf overlay (engine.verdict overlay) node = .error (.unresolved g)) :
    ∃ m, Link engine s node m ∧ Table.get? s.settled m = some (.failure g) := by
  obtain ⟨hneeded, hexpanded, _⟩ := h.complete node hnode
  cases hn : engine.graph.node? node.address with
  | none =>
    unfold evaluationOf at hstops
    rw [hn] at hstops
    cases hstops
  | some n =>
    have hdependencies := harranged.position_lt hgraph.distinct (Graph.mem_of_node? hn).1
    obtain ⟨hmissing, hstops | ⟨hrequired, r, e, htemplate, he, _, hstops⟩⟩ :=
      (evaluationOf_eq_unresolved_iff hn).mp hstops
    · rcases h.sound.requireAll_cases fun d hd => hneeded _ (.dependency hn hmissing hd) with
        ⟨hmet, _⟩ | ⟨earlier, d, later, g', hsplit, hfails, hfailure, hunresolved, hearlier⟩
      · rw [hmet] at hstops
        cases hstops
      · rw [hfails] at hstops
        cases hstops
        refine ⟨_, .dependency hn hmissing (by simp [hsplit]) hunresolved ?_, hfailure⟩
        intro x hx hless
        rw [hsplit] at hx hdependencies
        apply hearlier
        exact mem_earlier_of_pairwise hdependencies hx (by rintro rfl; omega) (by omega)
    · have hexpands : engine.Expands overlay node n r e := ⟨htemplate, hmissing, hrequired, he⟩
      have haddress := address_of_resource hn htemplate.resource
      have hkeys := keys_sorted htemplate.multiple he
      rw [← haddress] at hstops
      rcases h.sound.requireAll_cases fun key hkey => hneeded _ (.member hexpands hkey) with
        ⟨hmet, _⟩ | ⟨earlier, key, later, g', hsplit, hfails, hfailure, hunresolved, hearlier⟩
      · rw [hmet] at hstops
        cases hstops
      · rw [hfails] at hstops
        cases hstops
        have hall : ∀ d ∈ n.dependencies, s.status (.ofAddress d) = .resolved := by
          intro d hd
          apply (h.sound.status_eq_resolved_iff (hneeded _ (.dependency hn hmissing hd))).mpr
          exact requireAll_eq_ok_iff.mp hrequired _ (List.mem_map_of_mem hd)
        refine ⟨_, .member htemplate hmissing hall (hexpanded n r e hexpands.ofAddress) (by simp [hsplit])
          hunresolved ?_, hfailure⟩
        intro k hk hne hless
        rw [hsplit] at hk hkeys
        apply hearlier
        exact mem_earlier_of_pairwise hkeys hk hne fun hgreater =>
          hne (InstanceKey.optionAtMost_antisymm _ _ hless hgreater)

/-- A failure is the node's own, or it is that of the node to which the node is linked. -/
theorem Orderly.failure_cases {node : NodeId} {f : Failure}
    (hf : Table.get? s.settled node = some (.failure f)) :
    (∃ e, f = .own node e) ∨ ∃ m g, f = .inherited node g ∧ Link engine s node m
      ∧ Table.get? s.settled m = some (.failure g) := by
  have hsettled : s.IsSettled node := State.isSettled_of_get? hf
  have hverdict := h.sound.settled node _ hf
  rw [verdict_eq hgraph] at hverdict
  rcases hresult : engine.evaluationOf overlay (engine.verdict overlay) node with
    (g | ⟨e | d⟩) | v <;> rw [hresult] at hverdict <;> cases hverdict
  · obtain ⟨m, hlink, hfailure⟩ := h.link_of_unresolved hgraph harranged hsettled hresult
    exact .inr ⟨m, g, rfl, hlink, hfailure⟩
  · exact .inl ⟨e, rfl⟩

/-- The chain of a failure, by induction on its length. -/
theorem Orderly.chain_links {node : NodeId} {f : Failure}
    (hf : Table.get? s.settled node = some (.failure f)) :
    f.chain.head? = some node ∧ f.chain.IsChain (Link engine s)
      ∧ f.chain.getLast? = some f.origin
      ∧ Table.get? s.settled f.origin = some (.failure (.own f.origin f.error)) := by
  induction hlength : f.below.length using Nat.strongRecOn generalizing node f with
  | ind length ih =>
    subst hlength
    rcases h.failure_cases hgraph harranged hf with ⟨e, rfl⟩ | ⟨m, g, rfl, hlink, hg⟩
    · exact ⟨rfl, .singleton node, rfl, hf⟩
    · have hshorter : g.below.length < (Failure.inherited node g).below.length :=
        Nat.lt_succ_self _
      obtain ⟨hhead, hlinks, hlast, horigin⟩ := ih _ hshorter hg rfl
      rw [Failure.chain_inherited, Failure.origin_inherited]
      refine ⟨rfl, ?_, ?_, horigin⟩
      · rw [List.isChain_cons, hhead]
        exact ⟨fun _ hm => Option.some.inj hm ▸ hlink, hlinks⟩
      · rw [List.getLast?_cons, hlast]
        rfl

end Chains

/-! ## Skipped declarations -/

/-- Why a declaration is skipped: it refers to nothing undeclared, and one of its dependencies has no
value, or they all have and it has been expanded, but an instance has no value. -/
def Skips (engine : Engine) (s : State) (n : Graph.Node) : Prop :=
  n.missing = []
    ∧ ((∃ d ∈ n.dependencies, s.status (.ofAddress d) ≠ .resolved)
      ∨ (∀ d ∈ n.dependencies, s.status (.ofAddress d) = .resolved)
        ∧ ∃ r e, engine.IsTemplate (.ofAddress n.address) n r
          ∧ Table.get? s.expansions n.address = some e
          ∧ ∃ key ∈ e.keys, s.status ⟨n.address, key⟩ ≠ .resolved)

/-- A declaration that is linked to another node is skipped because of it. -/
theorem Link.skips {n : Graph.Node} {m : NodeId} (hn : engine.graph.node? n.address = some n)
    (hlink : Link engine s (.ofAddress n.address) m) : Skips engine s n := by
  cases hlink with
  | dependency hdeclared hmissing hd hunresolved _ =>
    cases hn.symm.trans hdeclared
    exact ⟨hmissing, .inl ⟨_, hd, hunresolved⟩⟩
  | member htemplate hmissing hrequired he hkey hunresolved _ =>
    cases hn.symm.trans htemplate.declared
    exact ⟨hmissing, .inr ⟨hrequired, _, _, htemplate, he, _, hkey, hunresolved⟩⟩

section Skipping

variable (h : Orderly engine overlay Admitted s)

include h

/-- A declaration for which this holds stops at the failure of another node. -/
theorem Orderly.unresolved_of_skips {n : Graph.Node}
    (hn : engine.graph.node? n.address = some n) (hsettled : s.IsSettled (.ofAddress n.address))
    (hskips : Skips engine s n) :
    ∃ g, engine.evaluationOf overlay (engine.verdict overlay) (.ofAddress n.address)
      = .error (.unresolved g) := by
  obtain ⟨hmissing, hskips⟩ := hskips
  have hneeded := (h.complete _ hsettled).needed
  have hdependencies : ∀ d ∈ n.dependencies, s.IsSettled (.ofAddress d) :=
    fun d hd => hneeded _ (.dependency hn hmissing hd)
  rcases h.sound.requireAll_cases hdependencies with
    ⟨hrequired, hall⟩ | ⟨_, _, _, g, _, hfails, _⟩
  · rcases hskips with ⟨d, hd, hunresolved⟩ | ⟨_, r, e, htemplate, he, key, hkey, hunresolved⟩
    · exact absurd (hall d hd) hunresolved
    · have hexpansion := h.sound.expansionOf_eq hn htemplate.resource he
      have hexpands : engine.Expands overlay (.ofAddress n.address) n r e :=
        ⟨htemplate, hmissing, hrequired, hexpansion⟩
      have hdeferred : e.isDeferred = false := by
        by_contra hdeferred
        have hkeys := (keys_of_isDeferred hexpansion (by simpa using hdeferred)).2
        rw [hkeys] at hkey
        exact List.not_mem_nil hkey
      have haddress : n.address = r.address := address_of_resource hn htemplate.resource
      rcases h.sound.requireAll_cases fun k hk => hneeded _ (.member hexpands hk) with
        ⟨_, hall⟩ | ⟨_, _, _, g, _, hfails, _⟩
      · exact absurd (hall key hkey) hunresolved
      · refine ⟨g, (evaluationOf_eq_unresolved_iff hn).mpr
          ⟨hmissing, .inr ⟨hrequired, r, e, htemplate, hexpansion, hdeferred, ?_⟩⟩⟩
        rw [← haddress]
        exact hfails
  · exact ⟨g, (evaluationOf_eq_unresolved_iff hn).mpr ⟨hmissing, .inl hfails⟩⟩

variable (hgraph : engine.graph.Acyclic)

include hgraph

/-- Skipped are the declarations that need a node without a value. -/
theorem Orderly.skipped_iff (harranged : engine.graph.Arranged) {n : Graph.Node}
    (hn : engine.graph.node? n.address = some n) (hsettled : s.IsSettled (.ofAddress n.address)) :
    s.status (.ofAddress n.address) = .skipped ↔ Skips engine s n := by
  obtain ⟨outcome, houtcome⟩ := Option.isSome_iff_exists.mp hsettled
  constructor
  · intro hskipped
    cases outcome with
    | value v => simp [State.status, houtcome] at hskipped
    | failure f =>
      rcases h.failure_cases hgraph harranged houtcome with ⟨e, rfl⟩ | ⟨m, g, rfl, hlink, _⟩
      · simp [State.status, houtcome] at hskipped
      · exact hlink.skips hn
  · intro hskips
    obtain ⟨g, hstops⟩ := h.unresolved_of_skips hn hsettled hskips
    have hverdict := h.sound.settled _ outcome houtcome
    rw [verdict_eq hgraph, hstops] at hverdict
    cases outcome <;> cases hverdict
    simp [State.status, houtcome]

/-- Nothing makes a value of a failed dependency. -/
theorem Orderly.dependencies_resolved {node : NodeId} {n : Graph.Node}
    (hn : engine.graph.node? node.address = some n) (hnode : s.status node = .resolved) :
    n.missing = [] ∧ ∀ d ∈ n.dependencies, s.status (.ofAddress d) = .resolved := by
  obtain ⟨v, hv⟩ := Option.isSome_iff_exists.mp ((State.status_eq_resolved_iff s node).mp hnode)
  have hsettled : s.IsSettled node := State.isSettled_of_value? hv
  have hverdict := h.sound.verdict_of_value? hv
  rw [verdict_eq hgraph, conclude_eq_ok_iff] at hverdict
  obtain ⟨hmissing, hrequired⟩ := required_of_evaluationOf hn hverdict
  refine ⟨hmissing, fun d hd => ?_⟩
  have hneeded := (h.complete node hsettled).needed _ (.dependency hn hmissing hd)
  apply (h.sound.status_eq_resolved_iff hneeded).mpr
  exact requireAll_eq_ok_iff.mp hrequired _ (List.mem_map_of_mem hd)

end Skipping

/-! ## Main statement -/

/-- A node has failed itself if the chain of its failure has no link. -/
theorem isSkipped_iff {f : Failure} : f.isSkipped = true ↔ 1 < f.chain.length := by
  obtain ⟨node, error, below⟩ := f
  cases below <;> simp [Failure.isSkipped, Failure.chain]

/-- All declarations have been settled, and all failures are accounted for. -/
structure Accounted (engine : Engine) (s : State) : Prop where
  visited : ∀ n ∈ engine.graph.nodes, s.status (.ofAddress n.address) ≠ .unvisited
  skipped : ∀ n ∈ engine.graph.nodes,
    s.status (.ofAddress n.address) = .skipped ↔ Skips engine s n
  /-- The chain of a failure starts at its node and follows links. -/
  linked : ∀ node f, Table.get? s.settled node = some (.failure f) →
    f.chain.head? = some node ∧ f.chain.IsChain (Link engine s)
  /-- It ends at a node that has failed with the same error. -/
  ended : ∀ node f, Table.get? s.settled node = some (.failure f) →
    ∃ last, f.chain.getLast? = some last ∧ s.status last = .failed
      ∧ Table.get? s.settled last = some (.failure (.own last f.error))
  /-- A node has failed itself if the chain has no link. -/
  marked : ∀ node f, Table.get? s.settled node = some (.failure f) →
    (s.status node = .skipped ↔ 1 < f.chain.length)
  /-- Nothing makes a value of a failed dependency. -/
  required : ∀ node n, engine.graph.node? node.address = some n → s.status node = .resolved →
    n.missing = [] ∧ ∀ d ∈ n.dependencies, s.status (.ofAddress d) = .resolved

/-- **All failures are accounted for.**  After a run that has not been stopped, and after attributes
have been supplied to it, all declarations are settled.  Skipped are those that need a node without
a value and refer to nothing undeclared.  The chain of a failure goes from each node to the first
one without a value that it needs, and ends at one that has failed with the error of the failure.
No expression makes a value of a failed dependency. -/
theorem UpToDate.accounted {library : Library} {settings : Settings}
    {declarations : List Declaration} {inputs : Table String Plain} {engine : Engine}
    (hengine : Engine.ofDeclarations library settings declarations inputs = .ok engine)
    (hcheck : engine.graph.checkAcyclic = .ok ()) (hunlimited : engine.settings.maxErrors = 0)
    {s : State} (hs : UpToDate engine s) : Accounted engine s := by
  have hgraph := acyclic_of_ofDeclarations hengine hcheck
  have harranged : engine.graph.Arranged := by
    obtain ⟨graph, hdeclared, hengine⟩ := bind_eq_ok_iff.mp hengine
    obtain ⟨_, _, hengine⟩ := bind_eq_ok_iff.mp hengine
    cases hengine
    exact Graph.arranged_of_ofDeclarations hdeclared
  have h := (hs.kept hgraph).orderly
  have hsettled : ∀ n ∈ engine.graph.nodes, s.IsSettled (.ofAddress n.address) :=
    fun n hn => hs.settled hgraph hunlimited _ (List.mem_map_of_mem hn)
  refine ⟨fun n hn => ?_, fun n hn => ?_, fun node f hf => ?_, fun node f hf => ?_,
    fun node f hf => ?_, fun node n hn hnode => h.dependencies_resolved hgraph hn hnode⟩
  · obtain ⟨outcome, houtcome⟩ := Option.isSome_iff_exists.mp (hsettled n hn)
    rw [State.status, houtcome]
    cases outcome with
    | value v => simp
    | failure f => cases hskipped : f.isSkipped <;> simp [hskipped]
  · exact h.skipped_iff hgraph harranged (Graph.node?_of_mem hgraph.distinct hn) (hsettled n hn)
  · obtain ⟨hhead, hlinks, _⟩ := h.chain_links hgraph harranged hf
    exact ⟨hhead, hlinks⟩
  · obtain ⟨_, _, hlast, horigin⟩ := h.chain_links hgraph harranged hf
    exact ⟨f.origin, hlast, by simp [State.status, horigin], horigin⟩
  · rw [← isSkipped_iff, State.status, hf]
    cases hskipped : f.isSkipped <;> simp [hskipped]

/-- A failure that is not rescued. -/
theorem UpToDate.accounted_rescue :
    let broken : Declaration := .localValue ⟨"broken",
      .binary none .add (.literal none (.ofNat 1)) (.literal none .null), none⟩
    let rescue : Declaration := .localValue ⟨"rescue",
      .call none "try" [.ref none ⟨.localName, "broken"⟩, .literal none (.ofNat 0)], none⟩
    ∃ engine s, Engine.ofDeclarations Library.standard Settings.standard [rescue, broken] []
        = .ok engine
      ∧ engine.graph.checkAcyclic = .ok () ∧ engine.settings.maxErrors = 0 ∧ UpToDate engine s
      ∧ s.status (.ofAddress "local.rescue") = .skipped ∧ Accounted engine s := by
  intro broken rescue
  let engine : Engine := ⟨⟨[⟨rescue, ["local.broken"], []⟩, ⟨broken, [], []⟩]⟩,
    Library.standard, Settings.standard, []⟩
  have hengine : Engine.ofDeclarations Library.standard Settings.standard [rescue, broken] []
      = .ok engine := by
    cbv
  have hcheck : engine.graph.checkAcyclic = .ok () := by
    cbv
  have hsorted : engine.graph.topologicalOrder = .ok ["local.broken", "local.rescue"] := by
    cbv
  have hdrive : (runFrom .initial (engine.drive ["local.broken", "local.rescue"])).1 = .ok () := by
    cbv
  obtain ⟨s, hs, hsettled⟩ := UpToDate.run_of_drive [] hsorted hdrive
  refine ⟨engine, s, hengine, hcheck, rfl, hs, ?_, UpToDate.accounted hengine hcheck rfl hs⟩
  have hskipped : (runFrom .initial (engine.drive ["local.broken", "local.rescue"])).2.status
      (.ofAddress "local.rescue") = .skipped := by
    cbv
  rw [State.status, hsettled]
  exact hskipped

end Engine

end Groundplan
