import Groundplan.Proofs.Engine.History
import Groundplan.Proofs.Refinement.Verdict
import Mathlib

/-!
# Supplied Attributes Revise Nothing

Attributes that were unknown are supplied after a run, and what depends on them is resolved anew.
If no expression calls `try` or `can`, nothing that has been known changes: values are refined, and
what has failed or been skipped is not resolved.

Both states are compared through the verdicts that they keep.  They hold different instances where
an expansion was deferred, so that only nodes which exist in the first one are compared; no run
settles any others.

## Main Statements

- `Engine.existing_lasting`: runs settle only what exists
- `Engine.apply_foresees`: what has become of nodes foresees their later verdicts
- `Engine.apply_refines_outcomes`
-/

namespace Groundplan

namespace Engine

variable {engine : Engine}

/-- The nodes that exist are reached by runs, and they last while their dependencies do. -/
theorem existing_lasting (engine : Engine) : Lasting engine (Exists engine) := by
  constructor
  · intro overlay
    refine ⟨fun _ h => h.1, fun _ h => ⟨h, .inl rfl⟩, fun n r e hn hr he key hkey => ?_⟩
    refine ⟨?_, .inr ⟨n, r, e, hn, hr, he, hkey⟩⟩
    exact Graph.has_iff_mem_addresses.mp (by rw [Graph.has, hn]; rfl)
  · rintro overlay node supplied m ⟨hdeclared, hkey⟩ hunrelated
    refine ⟨hdeclared, hkey.imp_right ?_⟩
    rintro ⟨n, r, e, hn, hr, he, hmem⟩
    refine ⟨n, r, e, hn, hr, ?_, hmem⟩
    rw [← he]
    refine (expansionOf_congr fun d hd => ?_).symm
    exact Supplied.verdict_dependency supplied hunrelated (Graph.refers_iff.mpr ⟨n, hn, hd⟩)

/-- A batch without calls of `try` and `can` is conservative in the standard library. -/
theorem conservative_of_ofDeclarations {settings : Settings} {declarations : List Declaration}
    {inputs : Table String Plain}
    (hengine : Engine.ofDeclarations Library.standard settings declarations inputs = .ok engine)
    (hcalls : ∀ d ∈ declarations, ∀ entry ∈ d.expressions,
      "try" ∉ entry.2.calls ∧ "can" ∉ entry.2.calls) : Conservative engine := by
  obtain ⟨hlibrary, hdeclared⟩ := declared_of_ofDeclarations hengine
  refine ⟨?_, fun n hn => hcalls n.declaration (hdeclared n hn)⟩
  rw [hlibrary]
  exact standard_foreseeing

/-- Fields that are unknown may be supplied. -/
theorem putAll_refines {fields supplied : List (String × Value)}
    (hunknown : ∀ name ∈ Table.keys supplied, Table.get? fields name = some .unknown) :
    Value.RefinedBy (.object fields) (.object (Table.putAll fields supplied)) := by
  refine .object (Value.fieldsRefinedBy_iff.mpr (.putAll_right (.refl Value.RefinedBy.refl _) ?_))
  intro entry hentry
  exact ⟨.unknown, hunknown entry.1 (List.mem_map.mpr ⟨entry, hentry, rfl⟩), .unknown _⟩

section Comparison

variable {overlay : Overlay} {s : State}

/-- What has become of nodes foresees the verdicts after unknown attributes have been supplied. -/
theorem apply_foresees (hgraph : engine.graph.Acyclic) (hconservative : Conservative engine)
    (hs : Sound engine overlay (Exists engine overlay) s) (hdistinct : Distinct overlay)
    {node : NodeId} {attributes : Table String Plain}
    (happly : (runFrom s (engine.apply node attributes)).1.isOk = true)
    (hunknown : ∀ value, s.value? node = some value → ∀ name ∈ Table.keys attributes,
      Table.get? (value.fields?.getD []) name = some .unknown) :
    ∃ overlay', Sound engine overlay' (Exists engine overlay')
        (runFrom s (engine.apply node attributes)).2
      ∧ ∀ m outcome, Table.get? s.settled m = some outcome →
          Foresees Value.RefinedBy outcome.result (engine.verdict overlay' m) := by
  have hlasting := existing_lasting engine
  rcases apply_cases engine s node attributes with
    ⟨fault, hrun⟩ | ⟨supplied, value, happlicable, hread, hvalue, hrun⟩
  · rw [hrun] at happly
    cases happly
  · obtain ⟨n, r, hn, hr, hsingle⟩ := resource_of_checkApplicable happlicable
    have hsupplied : engine.Supplied overlay node value n r :=
      ⟨hn, hr, hsingle, hs.verdict_of_value? hvalue⟩
    obtain ⟨fields, rfl, hverdict'⟩ := hsupplied.verdict_self supplied hgraph hdistinct
    have hfields : Value.RefinedBy (.object fields) (.object (Table.putAll fields supplied)) := by
      refine putAll_refines ?_
      rw [keys_of_readAttributes hread]
      exact hunknown _ hvalue
    have hnode : Foresees Value.RefinedBy (engine.verdict overlay node)
        (engine.verdict (supply overlay node supplied) node) := by
      rw [hsupplied.verdict, hverdict']
      exact .ok hfields
    refine ⟨supply overlay node supplied, ?_, fun m outcome hm => ?_⟩
    · rw [hrun]
      exact resumption_maintains hgraph (hlasting.admits _) node.address _
        (merged_sound hgraph hs hdistinct supplied happlicable hvalue
          (hlasting.supply overlay node supplied))
    · -- A node that has been settled exists, so that its verdict foresees the later one.
      rw [hs.settled m outcome hm]
      exact verdict_foresees hgraph hconservative hnode
        (fun m hm => (supply_of_ne _ _ hm).symm) (hs.admitted m outcome hm)

variable {overlay' : Overlay} {Admitted' : NodeId → Prop} {s' : State}
  (hs' : Sound engine overlay' Admitted' s')

include hs'

/-- A foreseen node that is still resolved has a refined value. -/
theorem Sound.refines_value {m : NodeId} {v : Value}
    (hforesees : Foresees Value.RefinedBy (.ok v) (engine.verdict overlay' m)) :
    s'.status m ≠ .resolved
      ∨ ∃ w, s'.value? m = some w ∧ Value.RefinedBy v w ∧ (v.containsUnknown = false → w = v) := by
  cases hw : s'.value? m with
  | none =>
    left
    rw [ne_eq, State.status_eq_resolved_iff, hw]
    exact Bool.false_ne_true
  | some w =>
    right
    obtain ⟨v', hv', hvw⟩ := hforesees w (hs'.verdict_of_value? hw)
    cases hv'
    exact ⟨w, rfl, hvw, hvw.eq_of_known⟩

/-- A foreseen failure is not resolved. -/
theorem Sound.ne_resolved {m : NodeId} {stop : Stop}
    (hforesees : Foresees Value.RefinedBy (.error stop) (engine.verdict overlay' m)) :
    s'.status m ≠ .resolved := by
  intro hresolved
  obtain ⟨w, hw⟩ := Option.isSome_iff_exists.mp ((State.status_eq_resolved_iff s' m).mp hresolved)
  obtain ⟨v, hv, _⟩ := hforesees w (hs'.verdict_of_value? hw)
  cases hv

end Comparison

/-- A failure is kept for what has failed or has been skipped. -/
theorem failure_of_status {s : State} {m : NodeId}
    (h : s.status m = .failed ∨ s.status m = .skipped) :
    ∃ f, Table.get? s.settled m = some (.failure f) := by
  unfold State.status at h
  cases hm : Table.get? s.settled m with
  | none =>
    rw [hm] at h
    rcases h with h | h <;> cases h
  | some outcome =>
    rw [hm] at h
    cases outcome with
    | value v => rcases h with h | h <;> cases h
    | failure f => exact ⟨f, rfl⟩

/-! ## Main statement -/

/-- **What is known is not revised.**  Let no expression call `try` or `can`, and let attributes
be supplied for an instance, after a run or any other calls for whole declarations, only where
they are unknown.  A node that was resolved then has a value that refines its former one, or it is
not resolved any more; a value without unknown parts stays.  A node that had failed or had been
skipped is not resolved. -/
theorem apply_refines_outcomes {settings : Settings} {declarations : List Declaration}
    {inputs : Table String Plain}
    (hengine : Engine.ofDeclarations Library.standard settings declarations inputs = .ok engine)
    (hcheck : engine.graph.checkAcyclic = .ok ())
    (hcalls : ∀ d ∈ declarations, ∀ entry ∈ d.expressions,
      "try" ∉ entry.2.calls ∧ "can" ∉ entry.2.calls)
    (calls : List Call) (hwhole : ∀ node, .resolve node ∈ calls → node.key = none)
    {node : NodeId} {attributes : Table String Plain}
    (happly : (runFrom (engine.afterAll calls) (engine.apply node attributes)).1.isOk = true)
    (hunknown : ∀ value, (engine.afterAll calls).value? node = some value →
      ∀ name ∈ Table.keys attributes,
        Table.get? (value.fields?.getD []) name = some .unknown) :
    let before := engine.afterAll calls
    let later := engine.after before (.apply node attributes)
    (∀ m v, before.value? m = some v →
        later.status m ≠ .resolved
          ∨ ∃ w, later.value? m = some w ∧ Value.RefinedBy v w
              ∧ (v.containsUnknown = false → w = v))
      ∧ ∀ m, before.status m = .failed ∨ before.status m = .skipped →
          later.status m ≠ .resolved := by
  intro before later
  have hgraph := acyclic_of_ofDeclarations hengine hcheck
  obtain ⟨hdistinct, hs⟩ := afterAll_invariant hgraph (existing_lasting engine) calls
    fun m hm hdeclared _ => ⟨hdeclared, .inl (hwhole m hm)⟩
  obtain ⟨overlay', hs', hforesees⟩ := apply_foresees hgraph
    (conservative_of_ofDeclarations hengine hcalls) hs hdistinct happly hunknown
  constructor
  · intro m v hv
    exact Sound.refines_value hs' (hforesees m (.value v) (value?_eq_some_iff.mp hv))
  · intro m hfailed
    obtain ⟨f, hm⟩ := failure_of_status hfailed
    exact Sound.ne_resolved hs' (hforesees m (.failure f) hm)

/-- The slots of a disk, and as many mounts, become known after a run. -/
theorem apply_refines_outcomes_mounts :
    let disk : Declaration := .resource ⟨"disk", "data", [("size", .literal none (.ofNat 1))],
      none, [], Lifecycle.none, ["slots"], none⟩
    let mounts : Declaration := .resource ⟨"mount", "at", [],
      some (.access none (.ref none ⟨.resource, "disk.data"⟩) "slots"), [], Lifecycle.none, [],
      none⟩
    ∃ engine, Engine.ofDeclarations Library.standard Settings.standard [disk, mounts] []
        = .ok engine
      ∧ let before := engine.afterAll [.run]
        let later := engine.after before (.apply (.ofAddress "disk.data") [("slots", .integer 2)])
        before.value? (.ofAddress "mount.at") = some .unknown
          ∧ later.value? (.ofAddress "mount.at") = some (.list [.object [], .object []])
          ∧ ∀ v, before.value? (.ofAddress "disk.data") = some v →
              later.status (.ofAddress "disk.data") ≠ .resolved
                ∨ ∃ w, later.value? (.ofAddress "disk.data") = some w ∧ Value.RefinedBy v w
                    ∧ (v.containsUnknown = false → w = v) := by
  intro disk mounts
  let engine : Engine := ⟨⟨[⟨disk, [], []⟩, ⟨mounts, ["disk.data"], []⟩]⟩, Library.standard,
    Settings.standard, []⟩
  have hengine : Engine.ofDeclarations Library.standard Settings.standard [disk, mounts] []
      = .ok engine := by
    cbv
  have hcheck : engine.graph.checkAcyclic = .ok () := by
    cbv
  have hbefore : (engine.afterAll [.run]).value? (.ofAddress "disk.data")
      = some (.object [("size", .ofNat 1), ("slots", .unknown)]) := by
    cbv
  have happly : (runFrom (engine.afterAll [.run])
      (engine.apply (.ofAddress "disk.data") [("slots", .integer 2)])).1.isOk = true := by
    cbv
  have hrefines := apply_refines_outcomes hengine hcheck (by decide) [.run] (by simp) happly (by
    intro value hvalue name hname
    rw [hbefore] at hvalue
    cases hvalue
    cases List.mem_singleton.mp hname
    rfl)
  refine ⟨engine, hengine, by cbv, by cbv, fun v hv => ?_⟩
  exact hrefines.1 _ v hv

end Engine

end Groundplan
