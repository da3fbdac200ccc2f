import Groundplan.Proofs.Engine.Merging
import Groundplan.Proofs.Engine.Passes

/-!
# Applying Attributes Keeps States Sound

Attributes are refused for what is no instance or has no value, and then nothing changes.
Otherwise they are put over those that the instance has, its dependents are forgotten, and a pass
resolves these anew.  The state is sound again, now for all that has been supplied.

## Main Statements

- `Engine.apply_cases`: attributes are refused or put over those of the instance
- `Engine.apply_sound`: applying attributes keeps states sound
-/

namespace Groundplan

namespace Engine

variable {engine : Engine} {overlay : Overlay} {Admitted Admitted' : NodeId → Prop} {s : State}

/-- Attributes can be applied to an instance of a resource, and not to a template. -/
theorem resource_of_checkApplicable {node : NodeId} (h : engine.checkApplicable node = .ok ()) :
    ∃ n r, engine.graph.node? node.address = some n ∧ n.declaration = .resource r
      ∧ (node.key.isNone && r.multiplicity.isSome) = false := by
  unfold checkApplicable at h
  obtain ⟨_, _, h⟩ := bind_eq_ok_iff.mp h
  unfold Graph.declaration? at h
  cases hn : engine.graph.node? node.address with
  | none =>
    rw [hn] at h
    cases h
  | some n =>
    rw [hn, Option.map_some] at h
    cases hdeclaration : n.declaration with
    | input v | localValue v | output o =>
      rw [hdeclaration] at h
      cases h
    | resource r =>
      rw [hdeclaration] at h
      refine ⟨n, r, rfl, hdeclaration, ?_⟩
      cases hwhole : node.key.isNone && r.multiplicity.isSome with
      | false => rfl
      | true =>
        simp only [hwhole, if_true] at h
        cases h

/-- What is supplied has the names of the attributes. -/
theorem keys_of_readAttributes {attributes : Table String Plain} {supplied : Table String Value}
    (h : readAttributes attributes = .ok supplied) :
    Table.keys supplied = Table.keys attributes := by
  induction attributes generalizing supplied with
  | nil =>
    cases h
    rfl
  | cons entry rest ih =>
    obtain ⟨name, data⟩ := entry
    unfold readAttributes at h
    split at h
    · cases h
    · obtain ⟨later, hlater, h⟩ := bind_eq_ok_iff.mp h
      cases h
      exact congrArg (name :: ·) (ih hlater)

/-- The state from which a pass resolves the dependents of a node anew. -/
def merged (engine : Engine) (s : State) (node : NodeId) (value : Value)
    (supplied : Table String Value) : State :=
  { (engine.graph.dependentsClosure [node.address]).foldl State.forget
      (merge s node value supplied) with evaluations := [] }

/-- The pass that resolves the dependents of a declaration anew. -/
def resumption (engine : Engine) (address : String) : Pass Report := do
  let order ← ofOutcome engine.graph.topologicalOrder
  engine.drive (Graph.among (engine.graph.dependentsClosure [address]) order)
  engine.report

/-- Either nothing changes, or the attributes are put over those of a node with a value. -/
theorem apply_cases (engine : Engine) (s : State) (node : NodeId)
    (attributes : Table String Plain) :
    (∃ fault, runFrom s (engine.apply node attributes) = (.error (.fault fault), s))
      ∨ ∃ supplied value, engine.checkApplicable node = .ok ()
          ∧ readAttributes attributes = .ok supplied ∧ s.value? node = some value
          ∧ runFrom s (engine.apply node attributes)
            = runFrom (engine.merged s node value supplied) (engine.resumption node.address) := by
  unfold apply
  rw [runFrom_ofOutcome_bind]
  cases hcheck : engine.checkApplicable node with
  | error fault => exact .inl ⟨fault, rfl⟩
  | ok _ =>
    dsimp only
    rw [runFrom_ofOutcome_bind]
    cases hread : readAttributes attributes with
    | error fault => exact .inl ⟨fault, rfl⟩
    | ok supplied =>
      cases hvalue : s.value? node with
      | none =>
        dsimp only
        rw [runFrom_get_bind, hvalue]
        exact .inl ⟨_, rfl⟩
      | some value =>
        dsimp only
        rw [runFrom_get_bind, hvalue]
        exact .inr ⟨supplied, value, rfl, rfl, rfl, rfl⟩

/-- What is left after attributes have been put over those of a node is sound for the attributes
supplied now. -/
theorem merged_sound (hgraph : engine.graph.Acyclic) (hs : Sound engine overlay Admitted s)
    (hdistinct : Distinct overlay) {node : NodeId} {value : Value}
    (supplied : Table String Value) (hcheck : engine.checkApplicable node = .ok ())
    (hvalue : s.value? node = some value)
    (hadmitted : ∀ m, Admitted m →
      ¬ Relation.TransGen engine.graph.Refers m.address node.address → Admitted' m) :
    Sound engine (supply overlay node supplied) Admitted'
      (engine.merged s node value supplied) := by
  obtain ⟨n, r, hn, hr, hsingle⟩ := resource_of_checkApplicable hcheck
  have hsupplied : engine.Supplied overlay node value n r :=
    ⟨hn, hr, hsingle, hs.verdict_of_value? hvalue⟩
  exact (hsupplied.merge_sound supplied hgraph hs hdistinct hvalue hadmitted).of_eq rfl rfl rfl

theorem resumption_preserves {P : State → Prop}
    (hresolve : ∀ address ∈ engine.graph.addresses,
      Preserves P (engine.resolveNode (.ofAddress address)))
    (hreport : ∀ s nodes, P s → P (s.report nodes)) (address : String) :
    Preserves P (engine.resumption address) := by
  refine .ofOutcome_bind _ fun order horder => .bind (drive_preserves hresolve hreport ?_)
    fun _ => report_preserves hreport
  intro a ha
  exact Graph.mem_addresses_of_topologicalOrder horder a (List.mem_filter.mp ha).1

theorem resumption_maintains (hgraph : engine.graph.Acyclic)
    (hadmits : Admits engine overlay Admitted) (address : String) :
    Maintains engine overlay Admitted (engine.resumption address) :=
  resumption_preserves (fun _ => resolveAddress_maintains hgraph hadmits)
    (fun _ nodes hs => hs.report nodes) address

/-- Applying attributes keeps states sound for what has been supplied. -/
theorem apply_sound (hgraph : engine.graph.Acyclic) {Admitted : Overlay → NodeId → Prop}
    (hadmits : ∀ overlay, Admits engine overlay (Admitted overlay))
    (hs : Sound engine overlay (Admitted overlay) s) (hdistinct : Distinct overlay)
    (node : NodeId) (attributes : Table String Plain)
    (hadmitted : ∀ supplied m, Admitted overlay m →
      ¬ Relation.TransGen engine.graph.Refers m.address node.address →
      Admitted (supply overlay node supplied) m) :
    ∃ overlay', Distinct overlay'
      ∧ Sound engine overlay' (Admitted overlay') (runFrom s (engine.apply node attributes)).2 := by
  rcases apply_cases engine s node attributes with
    ⟨fault, hrun⟩ | ⟨supplied, value, hcheck, _, hvalue, hrun⟩
  · -- Nothing has been supplied, and nothing has changed.
    rw [hrun]
    exact ⟨overlay, hdistinct, hs⟩
  · rw [hrun]
    refine ⟨supply overlay node supplied, hdistinct.supply node supplied, ?_⟩
    exact resumption_maintains hgraph (hadmits _) node.address _
      (merged_sound hgraph hs hdistinct supplied hcheck hvalue (hadmitted supplied))

end Engine

end Groundplan
