import Groundplan.Proofs.Engine.Presence

/-!
# Attributes from Outside Touch Dependents Only

When attributes of an instance are supplied with success, all nodes that do not depend on its
declaration keep what is known of them, apart from the instance itself and its template.  The
instance keeps its other attributes.

A pass that comes to its end has met no defect on its way, whatever defects there are elsewhere, so
that it is a course of moves in which no node is evaluated twice.  It only evaluates what has not
been settled where it begins, and of that only what the declarations need that are driven.  These
are the dependents of the instance.

## Main Definitions

- `Engine.Counted`: evaluations are counted in one place, and from one on

## Main Statements

- `Engine.Rests.executes`: a pass that meets no defect is a course
- `Engine.evaluated_of_drive`: what a pass evaluates
- `Engine.get?_settled_merged`, `Engine.Argued.get?_arguments_eq`, `Engine.defers_supply_iff`: what
  other nodes keep
- `Engine.apply_touches_dependents`
-/

namespace Groundplan

namespace Engine

open Relation

variable {engine : Engine} {overlay : Overlay} {Admitted : NodeId → Prop} {s s' start : State}
  {node : NodeId} {addresses done : List String}

/-! ## What a pass evaluates -/

/-- Declarations that are resolved without a fault are resolved in a course. -/
theorem Rests.finishes (hgraph : engine.graph.Acyclic) (hfinishes : engine.Finishes s done s')
    (hdeclared : ∀ a ∈ done, a ∈ engine.graph.addresses) (h : Rests engine overlay start s) :
    Rests engine overlay start s' := by
  induction hfinishes with
  | nil => exact h
  | @cons t _ _ address _ r hresolved hregular _ ih =>
    have haddress : engine.Declared (.ofAddress address) := hdeclared address List.mem_cons_self
    obtain ⟨hverdict, _⟩ :=
      h.orderly.resolveNode hgraph (declared_closed hgraph overlay) haddress hresolved
    have hrests := Rests.resolveNode hgraph
      (fun d hdefect => hregular (.defect d) (hverdict.trans hdefect)) haddress t h
    rw [hresolved] at hrests
    exact ih (fun a ha => hdeclared a (List.mem_cons_of_mem _ ha)) hrests

/-- A pass that meets no fault is a course, however far it has come. -/
theorem Rests.executes (hgraph : engine.graph.Acyclic) {s₀ : State} {d d' : Drive}
    (hdriven : ∀ a ∈ addresses, a ∈ engine.graph.addresses)
    (hcomplete : Complete engine overlay s₀)
    (hvalid : Drive.Valid engine overlay s₀ addresses d) (h : Rests engine overlay start d.state)
    (hexecutes : Drive.Executes engine d d') : Rests engine overlay start d'.state := by
  induction hexecutes with
  | refl => exact h
  | @tail d d' hbefore hstep ih =>
    have hlinked := (hvalid.executes hgraph hcomplete hbefore).linked
    have hbegun : ∀ a ∈ d.inFlight, a ∈ engine.graph.addresses := fun a ha =>
      hdriven a (hlinked.submitted a (hlinked.begun.mem_iff.mp (List.mem_append_left _ ha)))
    cases hstep with
    | @proceed a s hflight hfinishes =>
      exact ih.finishes hgraph hfinishes fun b hb => hbegun b (List.mem_singleton.mp hb ▸ hflight)
    | @complete done s _ _ hflight hfinishes =>
      have hrests := (ih.finishes hgraph hfinishes fun b hb => hbegun b (hflight b hb)).report
        (done.flatMap s.ownFailures)
      unfold Drive.advance
      dsimp only
      split <;> exact hrests

/-- What a pass that comes to its end has evaluated: each node once, which has not been settled
where the pass begins, and which a declaration needs that is driven. -/
theorem evaluated_of_drive (hgraph : engine.graph.Acyclic) (hdistinct : addresses.Nodup)
    (hdriven : ∀ a ∈ addresses, a ∈ engine.graph.addresses)
    (hs : Orderly engine overlay engine.Declared s) (hnone : s.evaluations = [])
    (hrun : runFrom s (engine.drive addresses) = (.ok (), s'))
    (hnode : s'.evaluationCount node ≠ 0) :
    s'.evaluationCount node = 1 ∧ ¬ s.IsSettled node
      ∧ ∃ a ∈ addresses, ReflTransGen (engine.Needs overlay) (.ofAddress a) node := by
  have hfresh : ∀ m, s.evaluationCount m = 0 := by
    intro m
    unfold State.evaluationCount
    rw [hnone]
    rfl
  obtain ⟨d, hexecutes, _, rfl⟩ := drive_executes hgraph hdistinct hrun
  have hstart := Drive.Valid.start hdistinct hs
  have hvalid := hstart.executes hgraph hs.complete hexecutes
  have hrests : Rests engine overlay s d.state := Rests.executes hgraph hdriven hs.complete hstart
    ⟨hs, .refl, fun m hm => (State.phase_eq_inProgress_iff.mp hm).2 (hfresh m)⟩ hexecutes
  have honce := hrests.course.evaluationCount_le_one (fun m => by rw [hfresh]; exact Nat.zero_le 1)
    node
  -- What has been evaluated is settled, as nothing is in progress in the end.
  have hsettled : d.state.IsSettled node := by
    by_contra hopen
    exact hrests.idle node (State.phase_eq_inProgress_iff.mpr ⟨hopen, hnode⟩)
  have hopen : ¬ s.IsSettled node := by
    intro hearlier
    exact hnode ((hrests.course.evaluationCount_of_settled hearlier).trans (hfresh node))
  obtain ⟨outcome, houtcome⟩ := Option.isSome_iff_exists.mp hsettled
  rcases hvalid.orderly.sound.admitted node outcome houtcome with hearlier | hneeded
  · exact absurd hearlier hopen
  · exact ⟨by omega, hopen, hneeded⟩

/-- Evaluations are counted in one place for every node, and only of nodes that are evaluated. -/
def Counted (s : State) : Prop :=
  (Table.keys s.evaluations).Nodup ∧ ∀ m, Table.get? s.evaluations m ≠ some 0

theorem counted_stable : Stable Counted where
  count s node h := by
    refine ⟨Table.nodup_keys_put s.evaluations node _ h.1, fun m => ?_⟩
    unfold State.count
    dsimp only
    rw [Table.get?_put]
    split
    · simp
    · exact h.2 m
  settle _ _ _ h := h
  expand _ _ h := h
  supply _ _ h := h
  defer _ _ h := h

theorem Counted.mem_iff (h : Counted s) {count : Nat} :
    (node, count) ∈ s.evaluations ↔ s.evaluationCount node = count ∧ count ≠ 0 := by
  rw [Table.mem_iff_get?_eq_some h.1]
  unfold State.evaluationCount
  have hpositive := h.2 node
  cases hfound : Table.get? s.evaluations node with
  | none =>
    constructor
    · intro hsame
      cases hsame
    · rintro ⟨rfl, hne⟩
      exact absurd rfl hne
  | some earlier =>
    rw [hfound] at hpositive
    simp only [Option.some.injEq, Option.getD_some]
    constructor
    · rintro rfl
      exact ⟨rfl, fun hzero => hpositive (congrArg some hzero)⟩
    · exact And.left

/-! ## What other nodes keep -/

/-- Of a settled declaration it is known whether its instances are deferred. -/
theorem Orderly.mem_deferred_iff (hs : Orderly engine overlay Admitted s) {address : String}
    (hsettled : s.IsSettled (.ofAddress address)) :
    address ∈ s.deferred ↔ engine.Defers overlay address := by
  refine ⟨hs.defers address, ?_⟩
  rintro ⟨n, r, e, he, hdeferred⟩
  exact (hs.complete _ hsettled).noted n r e he hdeferred

section Kept

variable {supplied : Table String Value} {value : Value} {m : NodeId}
  (hunrelated : ¬ TransGen engine.graph.Refers m.address node.address)

include hunrelated

/-- What does not depend on the node keeps what has become of it, apart from the template. -/
theorem get?_settled_merged (hgraph : engine.graph.Acyclic) (hnode : m ≠ node)
    (htemplate : m ≠ .ofAddress node.address) :
    Table.get? (engine.merged s node value supplied).settled m = Table.get? s.settled m := by
  rw [← Graph.mem_dependentsClosure_iff hgraph.distinct] at hunrelated
  unfold merged
  dsimp only
  rw [get?_settled_forgetAll, if_neg hunrelated, get?_merge_other hnode htemplate]

/-- Two states keep the same arguments of a node that both keep alike, if what has been supplied in
between does not concern its dependencies. -/
theorem Argued.get?_arguments_eq (hgraph : engine.graph.Acyclic) (h : Argued engine overlay s)
    (hs' : Sound engine (supply overlay node supplied) Admitted s')
    (h' : Argued engine (supply overlay node supplied) s') (hsettled : s.IsSettled m)
    (hsame : Table.get? s'.settled m = Table.get? s.settled m) :
    Table.get? s'.arguments m = Table.get? s.arguments m := by
  have hvalue : s'.value? m = s.value? m := by
    unfold State.value?
    rw [hsame]
  obtain ⟨outcome, houtcome⟩ := Option.isSome_iff_exists.mp hsettled
  -- A node whose evaluation comes to arguments has a value, and so both states keep some.
  have hvalued : ∀ arguments n r e, engine.Argues (supply overlay node supplied) m arguments n r e →
      (s'.value? m).isSome = true := by
    intro arguments n r e hargues
    obtain ⟨v, hv⟩ := hargues.exists_verdict hgraph
    rw [← hs'.settled m outcome (hsame.trans houtcome)] at hv
    cases outcome with
    | value w =>
      rw [value?_eq_some_iff.mpr (hsame.trans houtcome)]
      rfl
    | failure f => cases hv
  cases hfound : Table.get? s.arguments m with
  | some arguments =>
    obtain ⟨n, r, e, hargues⟩ := h.right m arguments hfound
    have hargues := hargues.supply node supplied hunrelated
    obtain ⟨arguments', hfound'⟩ := Option.isSome_iff_exists.mp
      (h'.given m n r hargues.single (hvalued _ n r e hargues))
    obtain ⟨n', r', e', hargues'⟩ := h'.right m arguments' hfound'
    rw [hfound', hargues.unique hargues']
  | none =>
    by_contra hsome
    obtain ⟨arguments', hfound'⟩ := Option.ne_none_iff_exists'.mp hsome
    obtain ⟨n, r, e, hargues⟩ := h'.right m arguments' hfound'
    have hgiven := h.given m n r hargues.single (hvalue ▸ hvalued _ n r e hargues)
    rw [hfound] at hgiven
    cases hgiven

/-- The instances of what does not depend on the node are deferred as before. -/
theorem defers_supply_iff :
    engine.Defers (supply overlay node supplied) m.address ↔ engine.Defers overlay m.address := by
  have hwhole : ¬ TransGen engine.graph.Refers (NodeId.ofAddress m.address).address node.address :=
    hunrelated
  unfold Defers
  simp only [expands_iff_of_unrelated hwhole]

end Kept

/-! ## The node itself -/

/-- The node has its fields, with what has been supplied over them. -/
theorem value?_merged_self (hgraph : engine.graph.Acyclic) (hs : Sound engine overlay Admitted s)
    (hdistinct : Distinct overlay) {value : Value} (supplied : Table String Value)
    (hcheck : engine.checkApplicable node = .ok ()) (hvalue : s.value? node = some value) :
    ∃ fields, value = .object fields
      ∧ (engine.merged s node value supplied).value? node
        = some (.object (Table.putAll fields supplied)) := by
  obtain ⟨n, r, hn, hr, hsingle⟩ := resource_of_checkApplicable hcheck
  have hsupplied : engine.Supplied overlay node value n r :=
    ⟨hn, hr, hsingle, hs.verdict_of_value? hvalue⟩
  obtain ⟨fields, rfl, _⟩ := hsupplied.verdict_self supplied hgraph hdistinct
  refine ⟨fields, rfl, value?_eq_some_iff.mpr ?_⟩
  have hself : node.address ∉ engine.graph.dependentsClosure [node.address] := by
    rw [Graph.mem_dependentsClosure_iff hgraph.distinct]
    exact hgraph.irreflexive node.address
  unfold merged
  dsimp only
  rw [get?_settled_forgetAll, if_neg hself, get?_merge_self]
  rfl

/-! ## Attributes that are supplied with success -/

section Success

variable {attributes : Table String Plain} {report : Report}
  (hrun : runFrom s (engine.apply node attributes) = (.ok report, s'))

include hrun

/-- The dependents are resolved from the state in which they have been forgotten. -/
theorem orderly_of_apply (hgraph : engine.graph.Acyclic) (hs : Kept engine s) :
    ∃ supplied value, engine.checkApplicable node = .ok ()
      ∧ readAttributes attributes = .ok supplied ∧ s.value? node = some value
      ∧ Orderly engine (supply s.applied node supplied) engine.Declared s'
      ∧ Extends (engine.merged s node value supplied) s' := by
  obtain ⟨supplied, value, _, _, hcheck, hread, hvalue, _⟩ := drive_of_apply hrun
  refine ⟨supplied, value, hcheck, hread, hvalue, ?_⟩
  have hafter : engine.after s (.apply node attributes) = s' := congrArg Prod.snd hrun
  have hbeginning : engine.beginning s (.apply node attributes)
      = engine.merged s node value supplied := by
    simp only [beginning, hcheck, hread, hvalue]
  have hmerged : Orderly engine (supply s.applied node supplied) engine.Declared
      (engine.beginning s (.apply node attributes)) := by
    rw [hbeginning]
    exact merged_orderly hgraph hs.orderly hs.distinct hcheck hvalue fun _ hm _ => hm
  have hextends := after_extends hgraph (declared_closed hgraph _) (fun _ ha => ha)
    (.apply node attributes) (fun _ _ hm => hm) hmerged
  rwa [hafter, hbeginning] at hextends

/-- Evaluated are dependents, and what had not been settled and is needed for a dependent. -/
theorem evaluated_of_apply (hgraph : engine.graph.Acyclic) (hs : Kept engine s) {m : NodeId}
    {count : Nat} (hcounted : (m, count) ∈ report.evaluations) :
    count = 1 ∧ (TransGen engine.graph.Refers m.address node.address
      ∨ ¬ s.IsSettled m ∧ ∃ a, TransGen engine.graph.Refers a node.address
        ∧ ReflTransGen (engine.Needs s'.applied) (.ofAddress a) m) := by
  obtain ⟨supplied, value, order, t, hcheck, _, hvalue, hsorted, hdrive, rfl, rfl⟩ :=
    drive_of_apply hrun
  have hmerged : Orderly engine (supply s.applied node supplied) engine.Declared
      (engine.merged s node value supplied) :=
    merged_orderly hgraph hs.orderly hs.distinct hcheck hvalue fun _ hm _ => hm
  have hperm := hgraph.topologicalOrder_perm hsorted
  have hdriven : ∀ a ∈ Graph.among (engine.graph.dependentsClosure [node.address]) order,
      a ∈ engine.graph.addresses := fun a ha => hperm.mem_iff.mp (List.mem_filter.mp ha).1
  have hstable : ∀ {P : State → Prop}, Stable P → (∀ t nodes, P t → P (t.report nodes)) →
      P (engine.merged s node value supplied) → P t := by
    intro P hP hreport hstart
    have hafter := drive_preserves (fun a _ => resolveWithin_preserves hP _ (.ofAddress a))
      hreport hdriven _ hstart
    rwa [hdrive] at hafter
  have hcounts : Counted t := hstable counted_stable (fun _ _ h => h)
    ⟨List.nodup_nil, fun _ hzero => by cases hzero⟩
  have happlied : t.applied = supply s.applied node supplied :=
    hstable (applied_stable _) (fun _ _ h => h) hmerged.sound.applied
  obtain ⟨hcount, hne⟩ := hcounts.mem_iff.mp hcounted
  obtain ⟨honce, hopen, a, ha, hneeded⟩ := evaluated_of_drive hgraph
    ((hperm.nodup_iff.mpr hgraph.distinct).filter _) hdriven hmerged rfl hdrive (hcount ▸ hne)
  refine ⟨hcount.symm.trans honce, ?_⟩
  rw [isSettled_merged_iff hgraph hvalue] at hopen
  by_cases hdependent : TransGen engine.graph.Refers m.address node.address
  · exact .inl hdependent
  · refine .inr ⟨fun hsettled => hopen ⟨hdependent, hsettled⟩, a, ?_, ?_⟩
    · rw [← Graph.mem_dependentsClosure_iff hgraph.distinct]
      exact List.contains_iff_mem.mp (List.mem_filter.mp ha).2
    · show ReflTransGen (engine.Needs t.applied) _ _
      rwa [happlied]

end Success

/-! ## Main statement -/

/-- **Attributes from outside touch dependents only.**  Let attributes of a node be supplied with
success, after any calls.  A node that has been settled and does not depend on the declaration of
the node keeps what has become of it, its arguments and its deferral, unless it is the node itself
or its template.  The node keeps its fields under other names than those that are supplied.  The
pass has evaluated each node at most once, and only nodes that depend on the declaration, and such
as had not been settled and are needed for a dependent. -/
theorem apply_touches_dependents {library : Library} {settings : Settings}
    {declarations : List Declaration} {inputs : Table String Plain} {engine : Engine}
    (hengine : Engine.ofDeclarations library settings declarations inputs = .ok engine)
    (calls : List Call) {node : NodeId} {attributes : Table String Plain} {report : Report}
    {s' : State}
    (hrun : runFrom (engine.afterAll calls) (engine.apply node attributes) = (.ok report, s')) :
    let s := engine.afterAll calls
    report = engine.reportOf s'
      ∧ (∀ m, s.IsSettled m → ¬ TransGen engine.graph.Refers m.address node.address → m ≠ node →
          m ≠ .ofAddress node.address →
          s'.status m = s.status m
            ∧ Table.get? s'.settled m = Table.get? s.settled m
            ∧ Table.get? s'.arguments m = Table.get? s.arguments m
            ∧ (m ∈ s'.deferred.map NodeId.ofAddress ↔ m ∈ s.deferred.map NodeId.ofAddress))
      ∧ (∃ fields fields', s.value? node = some (.object fields)
          ∧ s'.value? node = some (.object fields')
          ∧ ∀ name, name ∉ Table.keys attributes →
              Table.get? fields' name = Table.get? fields name)
      ∧ ∀ m count, (m, count) ∈ report.evaluations →
          count = 1 ∧ (TransGen engine.graph.Refers m.address node.address
            ∨ ¬ s.IsSettled m ∧ ∃ a, TransGen engine.graph.Refers a node.address
              ∧ ReflTransGen (engine.Needs s'.applied) (.ofAddress a) m) := by
  intro s
  have hgraph : engine.graph.Acyclic := by
    obtain ⟨_, _, _, _, _, _, _, hsorted, _⟩ := drive_of_apply hrun
    obtain ⟨_, hacyclic, _⟩ := bind_eq_ok_iff.mp hsorted
    exact acyclic_of_ofDeclarations hengine hacyclic
  have hs : Kept engine s := afterAll_kept hgraph calls
  have hargued : Argued engine s.applied s := afterAll_argued hgraph calls
  obtain ⟨supplied, value, hcheck, hread, hvalue, hs', hextends⟩ :=
    orderly_of_apply hrun hgraph hs
  have hargued' : Argued engine (supply s.applied node supplied) s' := by
    have hafter := after_argued hgraph hs hargued (.apply node attributes)
    have hstate : engine.after s (.apply node attributes) = s' := congrArg Prod.snd hrun
    rwa [hstate, hs'.sound.applied] at hafter
  refine ⟨?_, fun m hm hunrelated hnode htemplate => ?_, ?_,
    fun m count => evaluated_of_apply hrun hgraph hs⟩
  · -- What has been reported makes no difference to a report.
    obtain ⟨_, _, _, _, _, _, _, _, _, rfl, rfl⟩ := drive_of_apply hrun
    rfl
  · obtain ⟨outcome, houtcome⟩ := Option.isSome_iff_exists.mp hm
    have hsame : Table.get? s'.settled m = Table.get? s.settled m := by
      rw [houtcome]
      exact hextends.settled m outcome
        ((get?_settled_merged hunrelated hgraph hnode htemplate).trans houtcome)
    refine ⟨?_, hsame, ?_, ?_⟩
    · unfold State.status
      rw [hsame]
    · exact hargued.get?_arguments_eq hunrelated hgraph hs'.sound hargued' hm hsame
    · -- Only of declarations it is noted that they are deferred.
      simp only [List.mem_map]
      refine exists_congr fun a => and_congr_left ?_
      rintro rfl
      have hm' : s'.IsSettled (.ofAddress a) := State.isSettled_of_get? (hsame.trans houtcome)
      rw [hs'.mem_deferred_iff hm', hs.orderly.mem_deferred_iff hm]
      exact defers_supply_iff hunrelated
  · obtain ⟨fields, rfl, hmerged⟩ :=
      value?_merged_self hgraph hs.orderly.sound hs.distinct supplied hcheck hvalue
    refine ⟨fields, _, hvalue, hextends.value? hmerged, fun name hname => ?_⟩
    rw [← keys_of_readAttributes hread] at hname
    exact Table.get?_putAll_of_not_mem hname

/-- A disk gets an identity after a run.  Only the value that reads it is evaluated again. -/
theorem apply_touches_dependents_disk :
    let disk : Declaration := .resource ⟨"disk", "data", [], none, [], Lifecycle.none, ["id"], none⟩
    let first : Declaration := .localValue ⟨"first",
      .access none (.ref none ⟨.resource, "disk.data"⟩) "id", none⟩
    let other : Declaration := .localValue ⟨"other", .literal none (.ofNat 1), none⟩
    ∃ engine report s',
      Engine.ofDeclarations Library.standard Settings.standard [disk, first, other] [] = .ok engine
        ∧ runFrom (engine.afterAll [.run])
            (engine.apply (.ofAddress "disk.data") [("id", .text "a")]) = (.ok report, s')
        ∧ report.evaluations = [(.ofAddress "local.first", 1)]
        ∧ (engine.afterAll [.run]).status (.ofAddress "local.other") = .resolved
        ∧ s'.status (.ofAddress "local.other") = .resolved := by
  intro disk first other
  let engine : Engine := ⟨⟨[⟨disk, [], []⟩, ⟨first, ["disk.data"], []⟩, ⟨other, [], []⟩]⟩,
    Library.standard, Settings.standard, []⟩
  have hengine : Engine.ofDeclarations Library.standard Settings.standard [disk, first, other] []
      = .ok engine := by
    cbv
  obtain ⟨hsettled, hevaluations⟩ : (engine.afterAll [.run]).status (.ofAddress "local.other")
        = .resolved
      ∧ (runFrom (engine.afterAll [.run])
        (engine.apply (.ofAddress "disk.data") [("id", .text "a")])).1.map Report.evaluations
          = .ok [(.ofAddress "local.first", 1)] := by
    cbv
  have hunrelated : ¬ TransGen engine.graph.Refers "local.other" "disk.data" := by
    intro hpath
    obtain ⟨a, ha, _⟩ := TransGen.head'_iff.mp hpath
    have hnone : engine.graph.dependencies "local.other" = [] := by
      cbv
    rw [Graph.Refers, hnone] at ha
    cases ha
  generalize hrun : runFrom (engine.afterAll [.run])
    (engine.apply (.ofAddress "disk.data") [("id", .text "a")]) = outcome at hevaluations
  obtain ⟨_ | report, s'⟩ := outcome
  · cases hevaluations
  · refine ⟨engine, report, s', hengine, hrun, Except.ok.inj hevaluations, hsettled, ?_⟩
    have hopen : (engine.afterAll [.run]).IsSettled (.ofAddress "local.other") := by
      by_contra hopen
      rw [State.status_eq_unvisited_iff.mpr hopen] at hsettled
      cases hsettled
    rw [← hsettled]
    have hframe := (apply_touches_dependents hengine [.run] hrun).2.1 (.ofAddress "local.other")
    exact (hframe hopen hunrelated (by simp [NodeId.ofAddress]) (by simp [NodeId.ofAddress])).1

end Engine

end Groundplan
