import Groundplan.Graph.Reach
import Mathlib.Data.List.Nodup
import Mathlib.Data.List.Perm.Subperm
import Mathlib.Logic.Relation

/-!
# Reachability in a Graph of Declarations

A search finds exactly what can be reached, so that the closures of a graph are the transitive
closures of its edges.  In a graph without cycles every declaration therefore has a rank above
the ranks of what it refers to.

## Main Definitions

- `Graph.Refers`: the edges as a relation
- `Graph.Acyclic`: different addresses, edges read off the declarations, and no cycle
- `Graph.rank`: how many declarations one refers to, directly or through others

## Main Statements

- `Graph.mem_dependencyClosure_iff`, `Graph.mem_dependentsClosure_iff_exists`
- `Graph.of_ofDeclarations`: what a graph is made of
- `Graph.Acyclic.rank_lt`: references lower the rank
-/

namespace Groundplan

namespace Graph

open Relation

/-! ## Searches -/

section Gather

variable {next : String → List String} {remaining pending : List String}

/-- A search begins with what is pending first. -/
theorem head?_gather :
    (gather next remaining pending).head? = pending.find? remaining.contains := by
  cases hfound : pending.find? remaining.contains with
  | none => rw [gather_of_find?_eq_none hfound, List.head?_nil]
  | some selected => rw [gather_of_find?_eq_some hfound, List.head?_cons]

/-- What is gathered can be reached from something pending. -/
theorem reachable_of_mem_gather {y : String} (h : y ∈ gather next remaining pending) :
    ∃ p ∈ pending, ReflTransGen (fun a b => b ∈ next a) p y := by
  induction remaining, pending using gather.induct next with
  | case1 remaining pending hfound =>
    rw [gather_of_find?_eq_none hfound] at h
    exact absurd h List.not_mem_nil
  | case2 remaining pending selected hfound ih =>
    rw [gather_of_find?_eq_some hfound] at h
    have hselected : selected ∈ pending := List.mem_of_find?_eq_some hfound
    rcases List.mem_cons.mp h with rfl | hlater
    · exact ⟨y, hselected, .refl⟩
    · obtain ⟨p, hp, hpy⟩ := ih hlater
      rcases List.mem_append.mp hp with hnext | hpending
      · exact ⟨selected, hselected, .head hnext hpy⟩
      · exact ⟨p, hpending, hpy⟩

/-- Whatever remains is gathered if it is pending, or comes next to something gathered. -/
theorem gather_closed :
    (∀ p ∈ pending, p ∈ remaining → p ∈ gather next remaining pending)
      ∧ ∀ y ∈ gather next remaining pending, ∀ z ∈ next y, z ∈ remaining →
          z ∈ gather next remaining pending := by
  induction remaining, pending using gather.induct next with
  | case1 remaining pending hfound =>
    rw [gather_of_find?_eq_none hfound]
    refine ⟨fun p hp hremaining => ?_, fun y hy => absurd hy List.not_mem_nil⟩
    have hnone := List.find?_eq_none.mp hfound p hp
    exact absurd (List.contains_iff_mem.mpr hremaining) hnone
  | case2 remaining pending selected hfound ih =>
    rw [gather_of_find?_eq_some hfound]
    obtain ⟨hpending, hnext⟩ := ih
    -- Once it is selected, nothing is looked for again; all else remains.
    have hlater : ∀ z, z ∈ next selected ++ pending → z ∈ remaining →
        z ∈ selected :: gather next (remaining.erase selected) (next selected ++ pending) := by
      intro z hz hremaining
      by_cases hsame : z = selected
      · exact hsame ▸ List.mem_cons_self
      · exact List.mem_cons_of_mem _ (hpending z hz (List.mem_erase_of_ne hsame |>.mpr hremaining))
    constructor
    · exact fun p hp => hlater p (List.mem_append_right _ hp)
    · intro y hy z hz hremaining
      rcases List.mem_cons.mp hy with rfl | hy
      · exact hlater z (List.mem_append_left _ hz) hremaining
      · by_cases hsame : z = selected
        · exact hsame ▸ List.mem_cons_self
        · exact List.mem_cons_of_mem _
            (hnext y hy z hz (List.mem_erase_of_ne hsame |>.mpr hremaining))

/-- Where nothing leads out of what remains, a search finds all that can be reached. -/
theorem mem_gather_iff (hinside : ∀ a, ∀ b ∈ next a, b ∈ remaining)
    (hpending : ∀ p ∈ pending, p ∈ remaining) {y : String} :
    y ∈ gather next remaining pending
      ↔ ∃ p ∈ pending, ReflTransGen (fun a b => b ∈ next a) p y := by
  constructor
  · exact reachable_of_mem_gather
  · rintro ⟨p, hp, hpy⟩
    induction hpy with
    | refl => exact gather_closed.1 p hp (hpending p hp)
    | tail _ hstep ih => exact gather_closed.2 _ ih _ hstep (hinside _ _ hstep)

end Gather

/-! ## Edges -/

/-- One declaration refers to another. -/
def Refers (g : Graph) (a b : String) : Prop :=
  b ∈ g.dependencies a

/-- A graph whose addresses are different, whose edges are read off the declarations, and which
has no cycle. -/
structure Acyclic (g : Graph) : Prop where
  distinct : g.addresses.Nodup
  edges : ∀ n ∈ g.nodes, n = Node.among g.addresses n.declaration
  irreflexive : ∀ a, ¬ TransGen g.Refers a a

variable {g : Graph}

theorem mem_of_node? {address : String} {n : Node} (h : g.node? address = some n) :
    n ∈ g.nodes ∧ n.address = address := by
  refine ⟨List.mem_of_find?_eq_some h, ?_⟩
  have hfound := List.find?_some h
  simpa using hfound

/-- Different addresses have different nodes. -/
theorem node?_of_mem (hdistinct : g.addresses.Nodup) {n : Node} (hn : n ∈ g.nodes) :
    g.node? n.address = some n := by
  cases hfound : g.node? n.address with
  | none =>
    have hnone := List.find?_eq_none.mp hfound n hn
    simp at hnone
  | some m =>
    obtain ⟨hm, haddress⟩ := mem_of_node? hfound
    rw [List.inj_on_of_nodup_map hdistinct hm hn haddress]

theorem has_iff_mem_addresses {address : String} : g.has address = true ↔ address ∈ g.addresses := by
  unfold has node? addresses
  rw [List.find?_isSome, List.mem_map]
  simp

theorem refers_iff {a b : String} :
    g.Refers a b ↔ ∃ n, g.node? a = some n ∧ b ∈ n.dependencies := by
  unfold Refers dependencies
  cases g.node? a with
  | none => simp
  | some n => simp

/-- An edge that is read off a declaration leads to a declaration. -/
theorem mem_addresses_of_refers (hedges : ∀ n ∈ g.nodes, n = Node.among g.addresses n.declaration)
    {a b : String} (h : g.Refers a b) : b ∈ g.addresses := by
  obtain ⟨n, hn, hb⟩ := refers_iff.mp h
  rw [hedges n (mem_of_node? hn).1] at hb
  exact (List.mem_filter.mp hb).1

theorem mem_dependents_iff (hdistinct : g.addresses.Nodup) {a b : String} :
    b ∈ g.dependents a ↔ g.Refers b a := by
  unfold dependents
  rw [List.mem_map, refers_iff]
  constructor
  · rintro ⟨n, hn, rfl⟩
    obtain ⟨hn, ha⟩ := List.mem_filter.mp hn
    exact ⟨n, node?_of_mem hdistinct hn, List.contains_iff_mem.mp ha⟩
  · rintro ⟨n, hn, ha⟩
    obtain ⟨hmem, haddress⟩ := mem_of_node? hn
    exact ⟨n, List.mem_filter.mpr ⟨hmem, List.contains_iff_mem.mpr ha⟩, haddress⟩

/-! ## Closures -/

theorem mem_dependencyClosure_iff
    (hedges : ∀ n ∈ g.nodes, n = Node.among g.addresses n.declaration) {a b : String} :
    b ∈ g.dependencyClosure a ↔ TransGen g.Refers a b := by
  have hinside : ∀ a, ∀ b ∈ g.dependencies a, b ∈ g.addresses :=
    fun a b hb => mem_addresses_of_refers hedges hb
  unfold dependencyClosure
  rw [mem_gather_iff hinside (hinside a)]
  exact (TransGen.head'_iff (r := g.Refers)).symm

section Dependents

variable {closure pending : List String}

/-- What a closure comes to hold was in it, or refers to something that was pending. -/
theorem exists_pending_of_mem_dependentsFrom {b : String}
    (h : b ∈ g.dependentsFrom closure pending) :
    b ∈ closure ∨ ∃ a ∈ pending, TransGen (fun a b => b ∈ g.dependents a) a b := by
  induction closure, pending using dependentsFrom.induct g with
  | case1 closure =>
    rw [dependentsFrom_nil] at h
    exact .inl h
  | case2 closure first pending fresh ih =>
    rw [dependentsFrom_cons] at h
    have hfresh : ∀ c ∈ fresh, c ∈ g.dependents first := fun c hc => List.mem_of_mem_filter hc
    rcases ih h with hclosure | ⟨a, ha, hway⟩
    · rcases List.mem_append.mp hclosure with hold | hnew
      · exact .inl hold
      · exact .inr ⟨first, List.mem_cons_self, .single (hfresh b hnew)⟩
    · rcases List.mem_append.mp ha with hold | hnew
      · exact .inr ⟨a, List.mem_cons_of_mem first hold, hway⟩
      · -- What has become pending refers to the first address.
        exact .inr ⟨first, List.mem_cons_self, .head (hfresh a hnew) hway⟩

/-- If all that the closure holds is pending or has been followed, then in the end the closure
holds what it held, and all that refers to something pending or to something in it. -/
theorem dependentsFrom_closed
    (hfollowed : ∀ a ∈ closure, a ∈ pending ∨ ∀ b ∈ g.dependents a, b ∈ closure) :
    (∀ a ∈ closure, a ∈ g.dependentsFrom closure pending)
      ∧ (∀ a ∈ pending, ∀ b ∈ g.dependents a, b ∈ g.dependentsFrom closure pending)
      ∧ ∀ a ∈ g.dependentsFrom closure pending, ∀ b ∈ g.dependents a,
          b ∈ g.dependentsFrom closure pending := by
  induction closure, pending using dependentsFrom.induct g with
  | case1 closure =>
    rw [dependentsFrom_nil]
    refine ⟨fun a ha => ha, fun a ha => absurd ha List.not_mem_nil, fun a ha => ?_⟩
    exact (hfollowed a ha).resolve_left List.not_mem_nil
  | case2 closure first pending fresh ih =>
    rw [dependentsFrom_cons]
    have hfirst : ∀ b ∈ g.dependents first, b ∈ closure ++ fresh := by
      intro b hb
      by_cases hold : b ∈ closure
      · exact List.mem_append_left fresh hold
      · exact List.mem_append_right closure (List.mem_filter.mpr ⟨hb, by simpa using hold⟩)
    have hnext : ∀ a ∈ closure ++ fresh,
        a ∈ pending ++ fresh ∨ ∀ b ∈ g.dependents a, b ∈ closure ++ fresh := by
      intro a ha
      rcases List.mem_append.mp ha with hold | hnew
      · rcases hfollowed a hold with hpending | hall
        · rcases List.mem_cons.mp hpending with rfl | hlater
          · exact .inr hfirst
          · exact .inl (List.mem_append_left fresh hlater)
        · exact .inr fun b hb => List.mem_append_left fresh (hall b hb)
      · exact .inl (List.mem_append_right pending hnew)
    obtain ⟨hkept, hpending, hclosed⟩ := ih hnext
    refine ⟨fun a ha => hkept a (List.mem_append_left fresh ha), ?_, hclosed⟩
    intro a ha b hb
    rcases List.mem_cons.mp ha with rfl | hlater
    · exact hkept b (hfirst b hb)
    · exact hpending a (List.mem_append_left fresh hlater) b hb

/-- Nothing is in a closure twice. -/
theorem nodup_dependentsFrom (hdistinct : g.addresses.Nodup) (hclosure : closure.Nodup) :
    (g.dependentsFrom closure pending).Nodup := by
  induction closure, pending using dependentsFrom.induct g with
  | case1 closure =>
    rw [dependentsFrom_nil]
    exact hclosure
  | case2 closure first pending fresh ih =>
    rw [dependentsFrom_cons]
    apply ih
    have hfresh : fresh.Nodup := (hdistinct.sublist (g.dependents_sublist first)).filter _
    refine List.nodup_append.mpr ⟨hclosure, hfresh, ?_⟩
    rintro a ha b hb rfl
    simpa [ha] using (List.mem_filter.mp hb).2

/-- The closure of some addresses holds what refers to one of them, directly or through others. -/
theorem mem_dependentsClosure_iff_exists (hdistinct : g.addresses.Nodup) {starts : List String}
    {b : String} :
    b ∈ g.dependentsClosure starts ↔ ∃ a ∈ starts, TransGen g.Refers b a := by
  have hflip : (fun a b => b ∈ g.dependents a) = Function.swap g.Refers := by
    funext a b
    exact propext (mem_dependents_iff hdistinct)
  have hways : ∀ a c, TransGen g.Refers c a ↔ TransGen (fun a b => b ∈ g.dependents a) a c := by
    intro a c
    rw [← transGen_swap, ← hflip]
  have hclosed := @dependentsFrom_closed g [] starts fun a ha => absurd ha List.not_mem_nil
  unfold dependentsClosure
  simp only [hways]
  constructor
  · intro h
    exact (exists_pending_of_mem_dependentsFrom h).resolve_left List.not_mem_nil
  · rintro ⟨a, ha, hway⟩
    induction hway with
    | single hstep => exact hclosed.2.1 a ha _ hstep
    | tail _ hstep ih => exact hclosed.2.2 _ ih _ hstep

theorem mem_dependentsClosure_iff (hdistinct : g.addresses.Nodup) {a b : String} :
    b ∈ g.dependentsClosure [a] ↔ TransGen g.Refers b a := by
  rw [mem_dependentsClosure_iff_exists hdistinct]
  simp

end Dependents

/-! ## Graphs of declarations -/

/-- The addresses of declarations that are made into a graph are different. -/
private theorem nodup_of_duplicate? {earlier : List String} {declarations : List Declaration}
    (h : duplicate? earlier declarations = none) :
    (∀ d ∈ declarations, d.address ∉ earlier) ∧ (declarations.map Declaration.address).Nodup := by
  induction declarations generalizing earlier with
  | nil => exact ⟨fun _ hd => absurd hd List.not_mem_nil, List.nodup_nil⟩
  | cons d ds ih =>
    simp only [duplicate?] at h
    split at h
    · cases h
    · rename_i hfresh
      obtain ⟨hlater, hdistinct⟩ := ih h
      constructor
      · intro e he hearlier
        rcases List.mem_cons.mp he with rfl | he
        · exact hfresh (List.contains_iff_mem.mpr hearlier)
        · exact hlater e he (List.mem_cons_of_mem _ hearlier)
      · refine List.nodup_cons.mpr ⟨fun hmem => ?_, hdistinct⟩
        obtain ⟨e, he, hsame⟩ := List.mem_map.mp hmem
        exact hlater e he (hsame ▸ List.mem_cons_self)

/-- A graph of declarations has their addresses, which are different, and edges that are read off
them. -/
theorem of_ofDeclarations {declarations : List Declaration}
    (h : ofDeclarations declarations = .ok g) :
    g.addresses = declarations.map Declaration.address
      ∧ g.nodes = declarations.map (Node.among g.addresses) ∧ g.addresses.Nodup := by
  unfold ofDeclarations at h
  split at h
  · cases h
  rename_i hduplicate
  cases h
  have haddresses : (Graph.mk (declarations.map
      (Node.among (declarations.map Declaration.address)))).addresses
        = declarations.map Declaration.address := by
    rw [addresses, List.map_map]
    rfl
  rw [haddresses]
  exact ⟨rfl, rfl, (nodup_of_duplicate? hduplicate).2⟩

/-- The nodes of a graph of declarations are those of its declarations. -/
theorem edges_of_ofDeclarations {declarations : List Declaration}
    (h : ofDeclarations declarations = .ok g) :
    ∀ n ∈ g.nodes, n = Node.among g.addresses n.declaration := by
  intro n hn
  rw [(of_ofDeclarations h).2.1] at hn
  obtain ⟨d, _, rfl⟩ := List.mem_map.mp hn
  rfl

/-! ## Ranks -/

/-- How many declarations one refers to, directly or through others. -/
def rank (g : Graph) (address : String) : Nat :=
  (g.dependencyClosure address).length

namespace Acyclic

variable (hg : g.Acyclic)

include hg

/-- References lower the rank. -/
theorem rank_lt {a b : String} (h : g.Refers a b) : g.rank b < g.rank a := by
  have hnodup : ∀ a, (g.dependencyClosure a).Nodup := fun a => nodup_gather hg.distinct
  have hb : b ∉ g.dependencyClosure b := fun hmem =>
    hg.irreflexive b ((mem_dependencyClosure_iff hg.edges).mp hmem)
  -- The closure of `a` holds all of that of `b`, and `b` itself besides.
  have hsub : ∀ x ∈ b :: g.dependencyClosure b, x ∈ g.dependencyClosure a := by
    intro x hx
    rcases List.mem_cons.mp hx with rfl | hx
    · exact (mem_dependencyClosure_iff hg.edges).mpr (.single h)
    · exact (mem_dependencyClosure_iff hg.edges).mpr
        (.head h ((mem_dependencyClosure_iff hg.edges).mp hx))
  exact (List.subperm_of_subset (List.nodup_cons.mpr ⟨hb, hnodup b⟩) hsub).length_le

theorem rank_le_size (a : String) : g.rank a ≤ g.size := by
  have hsub : ∀ x ∈ g.dependencyClosure a, x ∈ g.addresses := fun x hx => mem_of_mem_gather hx
  have hle := (List.subperm_of_subset (nodup_gather hg.distinct) hsub).length_le
  rwa [addresses, List.length_map] at hle

theorem mem_addresses {a b : String} (h : g.Refers a b) : b ∈ g.addresses :=
  mem_addresses_of_refers hg.edges h

end Acyclic

end Graph

end Groundplan
