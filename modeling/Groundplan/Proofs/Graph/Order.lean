import Groundplan.Proofs.Graph.Counting
import Groundplan.Proofs.Outcome
import Mathlib.Order.WellFounded

/-!
# Orders of a Graph without Cycles

Declarations are placed one after another, each one once its dependencies have been placed.
Without cycles nothing is held forever: among declarations that are held there is always one that
refers to no other of them.  So the order consists of all declarations, each of them once and
behind those that it refers to.

## Main Statements

- `Graph.Arranged.position_lt`: dependencies stand in the order of the declarations
- `Graph.Acyclic.exists_free`: some declaration refers to no other one of a list
- `Graph.Acyclic.topologicalOrder_perm`: the order consists of the declarations
- `Graph.Acyclic.ordered_topologicalOrder`: dependencies come first
-/

namespace Groundplan

namespace Graph

variable {g : Graph}

theorem mem_held_iff {placed addresses : List String} {a : String} :
    a ∈ g.held placed addresses ↔ a ∈ addresses ∧ ∃ d, g.Refers a d ∧ d ∉ placed := by
  unfold held Refers
  simp

theorem mem_released_iff {placed addresses : List String} {a : String} :
    a ∈ g.released placed addresses ↔ a ∈ addresses ∧ ∀ d, g.Refers a d → d ∈ placed := by
  unfold released Refers
  simp

theorem forall_held {P : String → Prop} {placed waiting : List String}
    (hwaiting : ∀ a ∈ waiting, P a) : ∀ a ∈ g.held placed waiting, P a :=
  fun a ha => hwaiting a (mem_held_iff.mp ha).1

/-- What is released moves from what waits to what is ready. -/
theorem forall_released {P : String → Prop} {placed waiting ready : List String}
    (hwaiting : ∀ a ∈ waiting, P a) (hready : ∀ a ∈ ready, P a) :
    ∀ a ∈ ready ++ g.released placed waiting, P a := by
  intro a ha
  rcases List.mem_append.mp ha with ha | ha
  · exact hready a ha
  · exact hwaiting a (mem_released_iff.mp ha).1

/-- Dependencies stand in the order of the declarations. -/
def Arranged (g : Graph) : Prop :=
  ∀ n ∈ g.nodes, n.dependencies.Sublist g.addresses

theorem arranged_of_ofDeclarations {declarations : List Declaration}
    (h : ofDeclarations declarations = .ok g) : g.Arranged := by
  intro n hn
  rw [edges_of_ofDeclarations h n hn]
  exact List.filter_sublist

/-- What comes earlier among dependencies comes earlier among the declarations. -/
theorem Arranged.position_lt (h : g.Arranged) (hdistinct : g.addresses.Nodup) {n : Graph.Node}
    (hn : n ∈ g.nodes) : n.dependencies.Pairwise fun a b => g.position a < g.position b := by
  have hall : g.addresses.Pairwise fun a b => g.position a < g.position b := by
    rw [List.pairwise_iff_getElem]
    intro i j hi hj hless
    unfold position
    rwa [hdistinct.idxOf_getElem, hdistinct.idxOf_getElem]
  exact hall.sublist (h n hn)

/-- There is an order if the check for cycles finds none. -/
theorem exists_topologicalOrder (h : g.checkAcyclic = .ok ()) :
    ∃ order, g.topologicalOrder = .ok order := by
  unfold topologicalOrder
  rw [h]
  exact ⟨_, rfl⟩

/-- An order consists of declarations. -/
theorem mem_addresses_of_topologicalOrder {order : List String}
    (h : g.topologicalOrder = .ok order) : ∀ address ∈ order, address ∈ g.addresses := by
  obtain ⟨_, _, horder⟩ := bind_eq_ok_iff.mp h
  cases horder
  intro address hmem
  rcases mem_of_mem_orderFrom hmem with hready | ⟨a, hreferrer⟩
  · exact (List.mem_filter.mp hready).1
  · exact mem_addresses_of_mem_referrers hreferrer

namespace Acyclic

variable (hg : g.Acyclic)

include hg

/-- One of some declarations refers to no other one of them. -/
theorem exists_free {addresses : List String} (h : addresses ≠ []) :
    ∃ a ∈ addresses, ∀ d, g.Refers a d → d ∉ addresses := by
  obtain ⟨first, hfirst⟩ := List.exists_mem_of_ne_nil addresses h
  obtain ⟨a, ha, hleast⟩ :=
    (measure g.rank).wf.has_min {a | a ∈ addresses} ⟨first, hfirst⟩
  refine ⟨a, ha, fun d hd hmem => ?_⟩
  exact hleast d hmem (hg.rank_lt hd)

/-- Where nothing is ready any more, everything has been placed. -/
theorem mem_placed {placed : List String} {counts : Table String Int}
    (h : Counting g placed counts []) {a : String} (ha : a ∈ g.addresses) : a ∈ placed := by
  by_contra hout
  -- Of what is not placed, something awaits nothing else that is not placed.
  have hrest : besides placed g.addresses ≠ [] :=
    List.ne_nil_of_mem (List.mem_filter.mpr ⟨ha, by simpa using hout⟩)
  obtain ⟨b, hb, hfree⟩ := hg.exists_free hrest
  obtain ⟨hdeclared, hwaits⟩ := List.mem_filter.mp hb
  have hnothing : g.awaited placed b = [] := by
    apply awaited_eq_nil_iff.mpr
    intro d hd
    by_contra hd'
    exact hfree d hd (List.mem_filter.mpr ⟨hg.mem_addresses hd, by simpa using hd'⟩)
  have hplaced := (h.free b hdeclared).mpr hnothing
  rw [List.append_nil] at hplaced
  simp [hplaced] at hwaits

/-- The order consists of the declarations. -/
theorem topologicalOrder_perm {order : List String} (h : g.topologicalOrder = .ok order) :
    order.Perm g.addresses := by
  obtain ⟨_, _, horder⟩ := bind_eq_ok_iff.mp h
  cases horder
  obtain ⟨counts, hend⟩ := (counting_start hg.distinct).orderFrom hg.distinct hg.edges
  rw [List.append_nil] at hend
  apply (List.reverse_perm _).symm.trans
  apply (List.perm_ext_iff_of_nodup _ hg.distinct).mpr
  · intro a
    refine ⟨fun ha => hend.inside a (by simpa using ha), fun ha => hg.mem_placed hend ha⟩
  · simpa using hend.once

/-- Each declaration comes behind those that it refers to. -/
theorem ordered_topologicalOrder {order : List String} (h : g.topologicalOrder = .ok order) :
    g.Ordered [] order := by
  obtain ⟨_, _, horder⟩ := bind_eq_ok_iff.mp h
  cases horder
  exact (counting_start hg.distinct).ordered hg.distinct hg.edges

end Acyclic

end Graph

end Groundplan
