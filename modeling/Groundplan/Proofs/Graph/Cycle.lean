import Groundplan.Graph.Order
import Groundplan.Proofs.Graph.Component

/-!
# Cycles of Declarations

The cycles of a graph are reported exactly: there is one path for every strongly connected
component of the declarations that has a cycle, through all its members, in the order of their
first declarations.

## Main Definitions

- `Graph.RefersAmong`: references between declarations
- `Graph.placeAmong`: where a declaration stands among others
- `Graph.Interlocked`: declarations that refer to each other, directly or through others

## Main Statements

- `Graph.cycles_exact`: what the paths are
- `Graph.acyclic_of_checkAcyclic`: where the check for cycles finds none, there are none
-/

namespace Groundplan

namespace Graph

open Relation

/-! ## References between declarations -/

/-- One of the declarations refers to another. -/
def RefersAmong (declarations : List Declaration) (a b : String) : Prop :=
  (∃ d ∈ declarations, d.address = a ∧ ∃ path ∈ d.references, path.address = b)
    ∧ ∃ e ∈ declarations, e.address = b

/-- Two addresses can be reached from each other by references between declarations. -/
def Interlocked (declarations : List Declaration) (a b : String) : Prop :=
  ReflTransGen (RefersAmong declarations) a b ∧ ReflTransGen (RefersAmong declarations) b a

/-- Place of an address in a list of declarations. -/
def placeAmong (declarations : List Declaration) (address : String) : Nat :=
  (declarations.map Declaration.address).idxOf address

variable {declarations : List Declaration} {g : Graph}

/-- The edges of a graph of declarations are the references between them. -/
theorem refers_iff_refersAmong (h : ofDeclarations declarations = .ok g) {a b : String} :
    g.Refers a b ↔ RefersAmong declarations a b := by
  obtain ⟨haddresses, hnodes, hdistinct⟩ := of_ofDeclarations h
  have hdeclared : b ∈ g.addresses ↔ ∃ e ∈ declarations, e.address = b := by
    rw [haddresses, List.mem_map]
  rw [refers_iff]
  constructor
  · rintro ⟨n, hn, hb⟩
    obtain ⟨hmem, rfl⟩ := mem_of_node? hn
    rw [hnodes] at hmem
    obtain ⟨d, hd, rfl⟩ := List.mem_map.mp hmem
    obtain ⟨hb, hfound⟩ := List.mem_filter.mp hb
    obtain ⟨path, hpath, hb'⟩ := List.mem_map.mp (List.contains_iff_mem.mp hfound)
    exact ⟨⟨d, hd, rfl, path, hpath, hb'⟩, hdeclared.mp hb⟩
  · rintro ⟨⟨d, hd, rfl, path, hpath, hb⟩, hto⟩
    have hmem : Node.among g.addresses d ∈ g.nodes := by
      rw [hnodes]
      exact List.mem_map.mpr ⟨d, hd, rfl⟩
    refine ⟨Node.among g.addresses d, node?_of_mem hdistinct hmem, ?_⟩
    refine List.mem_filter.mpr ⟨hdeclared.mpr hto, List.contains_iff_mem.mpr ?_⟩
    exact List.mem_map.mpr ⟨path, hpath, hb⟩

theorem refers_eq_refersAmong (h : ofDeclarations declarations = .ok g) :
    g.Refers = RefersAmong declarations := by
  funext a b
  exact propext (refers_iff_refersAmong h)

/-! ## The paths that are reported -/

/-- Different addresses have different places. -/
theorem eq_of_position_eq {a b : String} (ha : a ∈ g.addresses)
    (hsame : g.position a = g.position b) : a = b :=
  (List.idxOf_inj ha).mp hsame

/-- A path through a component is at the place of its first member. -/
theorem place_eq_of_head? {path : List String} {first : String} (h : path.head? = some first) :
    g.place path = g.position first := by
  rw [place, h, Option.getD_some]

section Cycles

variable (hdistinct : g.addresses.Nodup) (hinside : ∀ a b, g.Refers a b → b ∈ g.addresses)

include hdistinct hinside

theorem isCircuit_of_mem_cycles {path : List String} (h : path ∈ g.cycles) : g.IsCircuit path :=
  ((sound_survey hdistinct hinside).1.reported.circuits path (Sorting.mem_sortBy.mp h)).1

theorem exists_mem_cycles {a : String} (ha : TransGen g.Refers a a) :
    ∃ path ∈ g.cycles, a ∈ path := by
  obtain ⟨hsound, hall⟩ := sound_survey hdistinct hinside
  obtain ⟨b, _, hlast⟩ := TransGen.tail'_iff.mp ha
  obtain ⟨path, hpath, hmem⟩ := hsound.reported.complete a (hall a (hinside b a hlast)) ha
  exact ⟨path, Sorting.mem_sortBy.mpr hpath, hmem⟩

/-- The paths are in the order of their first members, of which no two are the same. -/
theorem cycles_pairwise : g.cycles.Pairwise fun p q => g.place p < g.place q := by
  obtain ⟨hsound, _⟩ := sound_survey hdistinct hinside
  have hsorted : g.cycles.Pairwise fun p q => decide (g.place p ≤ g.place q) = true :=
    Sorting.sortBy_sorted
      (fun a b => (Nat.le_total (g.place a) (g.place b)).imp decide_eq_true decide_eq_true)
      (fun a b c hab hbc => decide_eq_true
        (Nat.le_trans (of_decide_eq_true hab) (of_decide_eq_true hbc))) _
  have hdisjoint : g.cycles.Pairwise List.Disjoint := by
    refine ((Sorting.sortBy_perm _ _).pairwise_iff ?_).mpr hsound.reported.disjoint
    exact fun {p q} h a hq hp => h hp hq
  refine (hsorted.and hdisjoint).imp_of_mem fun {p q} hp hq hboth => ?_
  obtain ⟨hle, hapart⟩ := hboth
  refine Nat.lt_of_le_of_ne (of_decide_eq_true hle) fun hsame => ?_
  obtain ⟨_, first, hfirst, hcycle, _⟩ := isCircuit_of_mem_cycles hdistinct hinside hp
  obtain ⟨_, first', hfirst', _⟩ := isCircuit_of_mem_cycles hdistinct hinside hq
  rw [place_eq_of_head? hfirst, place_eq_of_head? hfirst'] at hsame
  obtain ⟨b, _, hlast⟩ := TransGen.tail'_iff.mp hcycle
  have hshared := eq_of_position_eq (hinside b first hlast) hsame
  exact hapart (List.mem_of_head? hfirst) (hshared ▸ List.mem_of_head? hfirst')

/-- Two paths that share a member are the same. -/
theorem eq_of_mem_cycles {p q : List String} (hp : p ∈ g.cycles) (hq : q ∈ g.cycles) {a : String}
    (hap : a ∈ p) (haq : a ∈ q) : p = q := by
  obtain ⟨_, first, hfirst, _, hmembers, hleast⟩ := isCircuit_of_mem_cycles hdistinct hinside hp
  obtain ⟨_, first', hfirst', _, hmembers', hleast'⟩ :=
    isCircuit_of_mem_cycles hdistinct hinside hq
  have hconnected : g.Connected first first' :=
    ((hmembers a).mp hap).trans ((hmembers' a).mp haq).symm
  have hsame : g.place p = g.place q := by
    rw [place_eq_of_head? hfirst, place_eq_of_head? hfirst']
    exact Nat.le_antisymm (hleast _ ((hmembers _).mpr hconnected))
      (hleast' _ ((hmembers' _).mpr hconnected.symm))
  have hplaces : (g.cycles.map g.place).Nodup :=
    (List.pairwise_map.mpr (cycles_pairwise hdistinct hinside)).imp Nat.ne_of_lt
  exact List.inj_on_of_nodup_map hplaces hp hq hsame

/-- No path is reported if there is no cycle, and only then. -/
theorem cycles_eq_nil_iff : g.cycles = [] ↔ ∀ a, ¬ TransGen g.Refers a a := by
  constructor
  · intro hnone a ha
    obtain ⟨path, hpath, _⟩ := exists_mem_cycles hdistinct hinside ha
    exact absurd (hnone ▸ hpath) List.not_mem_nil
  · intro hirreflexive
    refine List.eq_nil_iff_forall_not_mem.mpr fun path hpath => ?_
    obtain ⟨_, first, _, hcycle, _⟩ := isCircuit_of_mem_cycles hdistinct hinside hpath
    exact hirreflexive first hcycle

end Cycles

/-- Cycles are reported exactly.  Each path starts at the member of a component that is declared
first, and has all its members, each once; the component has a second member or refers to itself.
Every component of this kind has one path, and the paths are in the order of their first members.
There is none just if no declaration refers to itself, directly or through others. -/
theorem cycles_exact (hgraph : ofDeclarations declarations = .ok g) :
    (∀ path ∈ g.cycles, path.Nodup ∧ ∃ first rest, path = first :: rest
        ∧ (rest ≠ [] ∨ RefersAmong declarations first first)
        ∧ (∀ b, b ∈ path ↔ Interlocked declarations first b)
        ∧ ∀ b ∈ path, placeAmong declarations first ≤ placeAmong declarations b)
      ∧ (∀ a, (∃ b, b ≠ a ∧ Interlocked declarations a b) ∨ RefersAmong declarations a a →
          ∃! path, path ∈ g.cycles ∧ a ∈ path)
      ∧ (g.cycles.Pairwise fun p q => ∀ a ∈ p.head?, ∀ b ∈ q.head?,
          placeAmong declarations a < placeAmong declarations b)
      ∧ (g.cycles = [] ↔ ∀ a, ¬ TransGen (RefersAmong declarations) a a) := by
  have hdistinct := (of_ofDeclarations hgraph).2.2
  have hinside : ∀ a b, g.Refers a b → b ∈ g.addresses :=
    fun a b h => mem_addresses_of_refers (edges_of_ofDeclarations hgraph) h
  have hrefers := refers_eq_refersAmong hgraph
  have hplace : ∀ a, g.position a = placeAmong declarations a := by
    intro a
    rw [position, (of_ofDeclarations hgraph).1, placeAmong]
  have hconnected : ∀ a b, g.Connected a b ↔ Interlocked declarations a b := by
    intro a b
    rw [Connected, hrefers, Interlocked]
  have hcycle : ∀ a, TransGen g.Refers a a
      ↔ (∃ b, b ≠ a ∧ Interlocked declarations a b) ∨ RefersAmong declarations a a := by
    intro a
    rw [on_cycle_iff, hrefers]
    simp only [hconnected]
  refine ⟨fun path hpath => ?_, fun a ha => ?_, ?_, ?_⟩
  · obtain ⟨hnodup, first, hfirst, hon, hmembers, hleast⟩ :=
      isCircuit_of_mem_cycles hdistinct hinside hpath
    obtain ⟨rest, rfl⟩ := List.head?_eq_some_iff.mp hfirst
    simp only [hplace] at hleast
    refine ⟨hnodup, first, rest, rfl, ?_, fun b => (hmembers b).trans (hconnected first b), hleast⟩
    refine ((hcycle first).mp hon).imp_left ?_
    rintro ⟨b, hne, hb⟩ hnone
    have hmem := (hmembers b).mpr ((hconnected first b).mpr hb)
    rw [hnone] at hmem
    exact hne (List.mem_singleton.mp hmem)
  · obtain ⟨path, hpath, hmem⟩ := exists_mem_cycles hdistinct hinside ((hcycle a).mpr ha)
    exact ⟨path, ⟨hpath, hmem⟩, fun q hq => eq_of_mem_cycles hdistinct hinside hq.1 hpath hq.2 hmem⟩
  · refine (cycles_pairwise hdistinct hinside).imp fun {p q} hlt a ha b hb => ?_
    rwa [place_eq_of_head? ha, place_eq_of_head? hb, hplace, hplace] at hlt
  · rw [cycles_eq_nil_iff hdistinct hinside, hrefers]

/-- A value that refers to itself, and after it three values that refer to each other in a circle;
a last value refers into the circle. -/
theorem cycles_exact_circle :
    let value : String → String → Declaration := fun name other =>
      .localValue ⟨name, .ref none ⟨.localName, other⟩, none⟩
    let declarations :=
      [value "a" "a", value "c" "b", value "d" "c", value "b" "d", value "e" "c"]
    ∃ g, ofDeclarations declarations = .ok g
      ∧ g.cycles = [["local.a"], ["local.c", "local.b", "local.d"]]
      ∧ (∀ b, b ∈ ["local.c", "local.b", "local.d"] ↔ Interlocked declarations "local.c" b)
      ∧ ¬ ∀ a, ¬ TransGen (RefersAmong declarations) a a := by
  intro value declarations
  let g : Graph := ⟨[⟨value "a" "a", ["local.a"], []⟩, ⟨value "c" "b", ["local.b"], []⟩,
    ⟨value "d" "c", ["local.c"], []⟩, ⟨value "b" "d", ["local.d"], []⟩,
    ⟨value "e" "c", ["local.c"], []⟩]⟩
  have hgraph : ofDeclarations declarations = .ok g := by
    cbv
  have hcycles : g.cycles = [["local.a"], ["local.c", "local.b", "local.d"]] := by
    cbv
  obtain ⟨hpaths, _, _, hnone⟩ := cycles_exact hgraph
  have hcircle : ["local.c", "local.b", "local.d"] ∈ g.cycles := by
    rw [hcycles]
    exact List.mem_cons_of_mem _ List.mem_cons_self
  obtain ⟨_, first, rest, hpath, _, hmembers, _⟩ := hpaths _ hcircle
  obtain ⟨rfl, rfl⟩ := List.cons.inj hpath
  refine ⟨g, hgraph, hcycles, hmembers, fun hacyclic => ?_⟩
  rw [hnone.mpr hacyclic] at hcycles
  cases hcycles

/-- Where the check for cycles finds none, there are none. -/
theorem acyclic_of_checkAcyclic (hgraph : ofDeclarations declarations = .ok g)
    (hcheck : g.checkAcyclic = .ok ()) : g.Acyclic := by
  have hdistinct := (of_ofDeclarations hgraph).2.2
  have hedges := edges_of_ofDeclarations hgraph
  have hcycles : g.cycles = [] := by
    unfold checkAcyclic at hcheck
    split at hcheck
    · assumption
    · cases hcheck
  exact ⟨hdistinct, hedges, (cycles_eq_nil_iff hdistinct
    fun a b h => mem_addresses_of_refers hedges h).mp hcycles⟩

end Graph

end Groundplan
