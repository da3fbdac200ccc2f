import Groundplan.Proofs.Graph.Cycle
import Groundplan.Proofs.Graph.Order
import Mathlib.Data.List.Permutation

/-!
# Orders Extend the References

Ordering a graph of declarations either fails with a cycle, and then there is one, or it lists all
declarations, each of them once and behind every one that it refers to.  There is no third
outcome: no declaration is left out, since among those that are left one is always ready.

## Main Statements

- `Graph.checkAcyclic_eq`: the outcome of the check for cycles
- `Graph.topologicalOrder_extends`: the outcome of ordering
-/

namespace Groundplan

namespace Graph

open Relation

variable {declarations : List Declaration} {g : Graph}

/-- The check for cycles fails with a path that is reported, or passes where there is no cycle. -/
theorem checkAcyclic_eq (hgraph : ofDeclarations declarations = .ok g) :
    ((∃ a, TransGen (RefersAmong declarations) a a)
        ∧ ∃ path ∈ g.cycles, ∃ span, g.checkAcyclic = fail (.cycle path) span)
      ∨ ((∀ a, ¬ TransGen (RefersAmong declarations) a a) ∧ g.checkAcyclic = .ok ()) := by
  have hinside : ∀ a b, g.Refers a b → b ∈ g.addresses :=
    fun a b h => mem_addresses_of_refers (edges_of_ofDeclarations hgraph) h
  have hnone := cycles_eq_nil_iff (of_ofDeclarations hgraph).2.2 hinside
  rw [refers_eq_refersAmong hgraph] at hnone
  cases hcycles : g.cycles with
  | nil =>
    right
    exact ⟨hnone.mp hcycles, by simp only [checkAcyclic, hcycles]⟩
  | cons path paths =>
    left
    constructor
    · by_contra hacyclic
      have hempty := hnone.mpr (not_exists.mp hacyclic)
      rw [hcycles] at hempty
      cases hempty
    · refine ⟨path, List.mem_cons_self, (path.head?.bind g.declaration?).bind Declaration.span, ?_⟩
      simp only [checkAcyclic, hcycles]

/-- Ordering fails with a cycle just if some declaration refers to itself, directly or through
others.  Otherwise the order has the address of every declaration once, and in front of each
address those of all declarations that it refers to. -/
theorem topologicalOrder_extends (hgraph : ofDeclarations declarations = .ok g) :
    ((∃ a, TransGen (RefersAmong declarations) a a)
        ∧ ∃ path ∈ g.cycles, ∃ span, g.topologicalOrder = fail (.cycle path) span)
      ∨ ((∀ a, ¬ TransGen (RefersAmong declarations) a a)
        ∧ ∃ order, g.topologicalOrder = .ok order
          ∧ order.Perm (declarations.map Declaration.address) ∧ order.Nodup
          ∧ ∀ before a after, order = before ++ a :: after →
              ∀ b, RefersAmong declarations a b → b ∈ before) := by
  rcases checkAcyclic_eq hgraph with ⟨hcycle, path, hpath, span, hcheck⟩ | ⟨hnone, hcheck⟩
  · -- The cycle is reported before anything is counted.
    left
    refine ⟨hcycle, path, hpath, span, ?_⟩
    rw [topologicalOrder, hcheck]
    rfl
  · right
    have hacyclic := acyclic_of_checkAcyclic hgraph hcheck
    obtain ⟨order, horder⟩ : ∃ order, g.topologicalOrder = .ok order := by
      rw [topologicalOrder, hcheck]
      exact ⟨_, rfl⟩
    have hperm := hacyclic.topologicalOrder_perm horder
    refine ⟨hnone, order, horder, ?_, hperm.nodup_iff.mpr hacyclic.distinct, ?_⟩
    · rw [← (of_ofDeclarations hgraph).1]
      exact hperm
    · rintro before a after rfl b hrefers
      have hordered := hacyclic.ordered_topologicalOrder horder
      -- Nothing has been placed before the order begins.
      rcases hordered.mem_before ((refers_iff_refersAmong hgraph).mpr hrefers) with h | h
      · exact absurd h List.not_mem_nil
      · exact h

/-- A value that refers to the two behind it, of which the first one refers to the second, and that
one to something that nothing declares. -/
theorem topologicalOrder_extends_sum :
    let ref : String → Expr := fun name => .ref none ⟨.localName, name⟩
    let value : String → Expr → Declaration := fun name e => .localValue ⟨name, e, none⟩
    let declarations :=
      [value "c" (.binary none .add (ref "a") (ref "b")), value "b" (ref "a"),
        value "a" (ref "gone")]
    ∃ g, ofDeclarations declarations = .ok g
      ∧ g.topologicalOrder = .ok ["local.a", "local.b", "local.c"]
      ∧ (∀ b, RefersAmong declarations "local.c" b → b ∈ ["local.a", "local.b"])
      ∧ ∀ a, ¬ TransGen (RefersAmong declarations) a a := by
  intro ref value declarations
  let g : Graph := ⟨[⟨value "c" (.binary none .add (ref "a") (ref "b")),
      ["local.b", "local.a"], []⟩,
    ⟨value "b" (ref "a"), ["local.a"], []⟩,
    ⟨value "a" (ref "gone"), [], [⟨.localName, "gone"⟩]⟩]⟩
  have hgraph : ofDeclarations declarations = .ok g := by
    cbv
  have hsorted : g.topologicalOrder = .ok ["local.a", "local.b", "local.c"] := by
    cbv
  rcases topologicalOrder_extends hgraph with ⟨_, _, _, _, hfails⟩ | ⟨hnone, order, horder, hrest⟩
  · rw [hsorted] at hfails
    cases hfails
  · obtain rfl : order = ["local.a", "local.b", "local.c"] := by
      rw [hsorted] at horder
      exact (Except.ok.inj horder).symm
    exact ⟨g, hgraph, hsorted, hrest.2.2 ["local.a", "local.b"] "local.c" [] rfl, hnone⟩

end Graph

end Groundplan
