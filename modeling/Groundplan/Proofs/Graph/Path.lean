import Groundplan.Proofs.Graph.Extension
import Mathlib.Data.List.Chain

/-!
# Paths Through Components

The path that is reported for a component lists its members in the order of a depth-first search.
As long as the search goes forward, each member refers to the next one.  Where a member refers to
nothing that is still to be listed, the search turns back, and goes on with something that a member
listed earlier refers to.  So two neighbours on the path need not be joined by a reference.  They
are all joined, and the last member refers to the first, in a component whose members refer to one
member each.

## Main Definitions

- `Graph.Joined`: each address refers to the next one, and the last one to the first

## Main Statements

- `Graph.gather_turns`: what comes next in a depth-first search
- `Graph.cycles_turn`: where the paths that are reported turn back
- `Graph.cycles_leave_gap`: a path whose neighbours are not joined
-/

namespace Groundplan

namespace Graph

open Relation

/-! ## Neighbours in a search -/

/-- What is gathered behind an address is next to it, if anything next to the address remains; if
nothing does, it was pending or is next to an earlier address. -/
theorem gather_turns {next : String → List String} {remaining pending before after : List String}
    {a b : String} (h : gather next remaining pending = before ++ a :: b :: after) :
    b ∈ next a ∨ (∀ c ∈ b :: after, c ∉ next a) ∧ (b ∈ pending ∨ ∃ c ∈ before, b ∈ next c) := by
  induction remaining, pending using gather.induct next generalizing before with
  | case1 remaining pending hfound =>
    rw [gather_of_find?_eq_none hfound] at h
    cases before <;> cases h
  | case2 remaining pending selected hfound ih =>
    rw [gather_of_find?_eq_some hfound] at h
    cases before with
    | cons first before =>
      obtain ⟨rfl, hrest⟩ := List.cons.inj h
      rcases ih hrest with hnext | ⟨hnone, hb | ⟨c, hc, hb⟩⟩
      · exact .inl hnext
      · -- What became pending at the first address is next to it.
        rcases List.mem_append.mp hb with hb | hb
        · exact .inr ⟨hnone, .inr ⟨selected, List.mem_cons_self, hb⟩⟩
        · exact .inr ⟨hnone, .inl hb⟩
      · exact .inr ⟨hnone, .inr ⟨c, List.mem_cons_of_mem _ hc, hb⟩⟩
    | nil =>
      obtain ⟨rfl, hrest⟩ := List.cons.inj h
      have hall : ∀ c ∈ b :: after, c ∈ remaining.erase selected := by
        intro c hc
        rw [← hrest] at hc
        exact mem_of_mem_gather hc
      have hb : (next selected ++ pending).find? (remaining.erase selected).contains = some b := by
        rw [← head?_gather, hrest, List.head?_cons]
      rw [List.find?_append] at hb
      cases hnext : (next selected).find? (remaining.erase selected).contains with
      | some c =>
        rw [hnext, Option.some_or, Option.some_inj] at hb
        exact .inl (hb ▸ List.mem_of_find?_eq_some hnext)
      | none =>
        -- Nothing next to the address remains, so the search goes back to what was pending.
        rw [hnext, Option.none_or] at hb
        refine .inr ⟨fun c hc hmem => ?_, .inl (List.mem_of_find?_eq_some hb)⟩
        exact List.find?_eq_none.mp hnext c hmem (List.contains_iff_mem.mpr (hall c hc))

variable {declarations : List Declaration} {g : Graph}

/-- On a path through a component each address refers to the next one, unless it refers to no
later one; then an earlier address refers to the next one. -/
theorem cyclePath_turns {members before after : List String} {a b : String}
    (h : g.cyclePath members = before ++ a :: b :: after) (hnodup : (g.cyclePath members).Nodup) :
    g.Refers a b ∨ (∀ c ∈ b :: after, ¬ g.Refers a c) ∧ ∃ c ∈ before, g.Refers c b := by
  rcases gather_turns h with hnext | ⟨hnone, hstart | hearlier⟩
  · exact .inl hnext
  · -- The path begins with the only address that is pending at the start.
    exfalso
    have hfound : g.addresses.find? members.contains = some b := by simpa using hstart
    have hhead := head?_cyclePath hfound
    rw [h] at hhead hnodup
    cases before with
    | nil =>
      obtain rfl : a = b := by simpa using hhead
      simp at hnodup
    | cons first before =>
      obtain rfl : first = b := by simpa using hhead
      simp at hnodup
  · exact .inr ⟨hnone, hearlier⟩

/-! ## The paths of a survey -/

namespace Survey

/-- Every path is made from the members of a component. -/
def Traced (g : Graph) (paths : List (List String)) : Prop :=
  ∀ path ∈ paths, ∃ members, path = g.cyclePath members

theorem handDown_paths (s : Survey) (address : String) : (s.handDown address).paths = s.paths := by
  unfold handDown
  split <;> rfl

theorem Traced.leave {s : Survey} (h : Traced g s.paths) (address : String) :
    Traced g (s.leave g address).paths := by
  rw [← handDown_paths s address] at h
  simp only [Survey.leave]
  split
  · simp only [close]
    split
    · intro path hpath
      rcases List.mem_append.mp hpath with hold | hnew
      · exact h path hold
      · exact ⟨_, List.mem_singleton.mp hnew⟩
    · exact h
  · exact h

theorem Traced.step {s later : Survey} (h : Traced g s.paths) (hstep : s.step g = some later) :
    Traced g later.paths := by
  unfold Survey.step at hstep
  split at hstep
  · cases hstep
  · rename_i address rest htrail
    cases hstep
    exact Traced.leave (s := { s with trail := rest }) h address
  · -- Meeting an address and lowering a number report nothing.
    simp only [Bool.cond_eq_ite] at hstep
    split at hstep
    · cases hstep
      exact h
    · split at hstep <;> cases hstep <;> exact h

theorem Traced.explore {s : Survey} (h : Traced g s.paths) : Traced g (s.explore g).paths := by
  induction s using explore.induct g with
  | case1 s hstep =>
    rw [explore_of_step_eq_none hstep]
    exact h
  | case2 s later hstep ih =>
    rw [explore_of_step_eq_some hstep]
    exact ih (h.step hstep)

theorem Traced.visit {s : Survey} (h : Traced g s.paths) (addresses : List String) :
    Traced g (addresses.foldl (Survey.visit g) s).paths := by
  induction addresses generalizing s with
  | nil => exact h
  | cons x rest ih =>
    apply ih
    unfold Survey.visit
    rw [Bool.cond_eq_ite]
    split
    · exact Traced.explore (s := s.enter g x) h
    · exact h

end Survey

/-- The paths that are reported are depth-first. -/
theorem exists_members_of_mem_cycles {path : List String} (h : path ∈ g.cycles) :
    ∃ members, path = g.cyclePath members := by
  have hstart : Survey.Traced g (Survey.start g).paths := fun _ hp => absurd hp List.not_mem_nil
  exact hstart.visit g.addresses path (Sorting.mem_sortBy.mp h)

/-! ## Joined paths -/

/-- Each address refers to the next one and the last one to the first, as the message about a cycle
writes them. -/
def Joined (declarations : List Declaration) (path : List String) : Prop :=
  (path ++ path.take 1).IsChain (RefersAmong declarations)

/-- Members of a circuit refer to members of it, and are referred to by members. -/
theorem IsCircuit.neighbours {path : List String} (h : g.IsCircuit path) {a : String}
    (ha : a ∈ path) : (∃ b ∈ path, g.Refers a b) ∧ ∃ b ∈ path, g.Refers b a := by
  obtain ⟨_, first, _, hcycle, hmembers, _⟩ := h
  have hconnected := (hmembers a).mp ha
  have haround := hconnected.on_cycle hcycle
  constructor
  · obtain ⟨b, hstep, hback⟩ := TransGen.head'_iff.mp haround
    exact ⟨b, (hmembers b).mpr (hconnected.trans ⟨.single hstep, hback⟩), hstep⟩
  · obtain ⟨b, hway, hstep⟩ := TransGen.tail'_iff.mp haround
    exact ⟨b, (hmembers b).mpr (hconnected.trans ⟨hway, .single hstep⟩), hstep⟩

/-- What holds of neighbours on a path of a depth-first search by a relation. -/
def TurnsBack (R : String → String → Prop) (path : List String) : Prop :=
  ∀ before a b after, path = before ++ a :: b :: after →
    R a b ∨ (∀ c ∈ b :: after, ¬ R a c) ∧ ∃ c ∈ before, R c b

/-- Each address on the path is related to one address on it at most. -/
def SingleOn (R : String → String → Prop) (path : List String) : Prop :=
  ∀ a ∈ path, ∀ b ∈ path, ∀ c ∈ path, R a b → R a c → b = c

section Single

variable {R : String → String → Prop} {path : List String} (hnodup : path.Nodup)
  (hturns : TurnsBack R path) (hsingle : SingleOn R path)

include hnodup hturns hsingle

/-- Where each address is related to one only, a search never turns back. -/
theorem isChain_of_single : path.IsChain R := by
  apply List.isChain_iff_forall_rel_of_append_cons_cons.mpr
  intro a b before after hpath
  rcases hturns before a b after hpath with hnext | ⟨_, c, hc, hcb⟩
  · exact hnext
  · -- An earlier address that is related to a later one is related to its neighbour as well.
    exfalso
    obtain ⟨front, back, rfl⟩ := List.append_of_mem hc
    obtain ⟨d, rest, hrest, hb⟩ : ∃ d rest, back ++ a :: b :: after = d :: rest ∧ b ∈ rest := by
      cases back with
      | nil => exact ⟨a, b :: after, rfl, List.mem_cons_self⟩
      | cons d back => exact ⟨d, back ++ a :: b :: after, rfl, by simp⟩
    have hsplit : path = front ++ c :: d :: rest := by
      rw [hpath, ← hrest, List.append_assoc, List.cons_append]
    rw [hsplit] at hnodup hsingle
    rcases hturns front c d rest hsplit with hcd | ⟨hnone, _⟩
    · obtain rfl := hsingle c (by simp) d (by simp) b (by simp [hb]) hcd hcb
      have hrepeated := (List.nodup_append.mp hnodup).2.1
      simp [hb] at hrepeated
    · exact hnone b (List.mem_cons_of_mem d hb) hcb

/-- If something on the path is related to its first address, the last address is. -/
theorem isChain_closed_of_single (hback : ∀ first ∈ path.head?, ∃ a ∈ path, R a first) :
    (path ++ path.take 1).IsChain R := by
  have hchain := isChain_of_single hnodup hturns hsingle
  apply List.isChain_append.mpr
  refine ⟨hchain, ?_, fun last hlast next hnext => ?_⟩
  · cases path <;> simp
  · cases path with
    | nil => simp at hnext
    | cons first rest =>
      obtain rfl : first = next := by simpa using hnext
      obtain ⟨a, ha, hrelated⟩ := hback first rfl
      obtain ⟨front, back, hpath⟩ := List.append_of_mem ha
      cases back with
      | nil =>
        obtain rfl : a = last := by simpa [hpath] using hlast
        exact hrelated
      | cons b back =>
        -- An address with a neighbour is related to that one, which is not the first.
        have hab := List.isChain_iff_forall_rel_of_append_cons_cons.mp hchain hpath
        have hb : b ∈ first :: rest := by simp [hpath]
        obtain rfl := hsingle a ha b hb first List.mem_cons_self hab hrelated
        rw [hpath] at hnodup
        cases front with
        | nil =>
          obtain rfl : b = a := by simpa using congrArg List.head? hpath
          simp at hnodup
        | cons c front =>
          obtain rfl : b = c := by simpa using congrArg List.head? hpath
          simp at hnodup

end Single

/-- A path that is reported as a cycle, by itself or with the error of the check, goes forward as
long as it can: each address refers to the next one unless it refers to no later one, and then an
earlier address refers to the next one.  If no address on the path refers to two addresses on it,
each one refers to the next and the last one to the first. -/
theorem cycles_turn (hgraph : ofDeclarations declarations = .ok g) {path : List String}
    (hpath : path ∈ g.cycles ∨ ∃ span, g.checkAcyclic = fail (.cycle path) span) :
    TurnsBack (RefersAmong declarations) path
      ∧ (SingleOn (RefersAmong declarations) path → Joined declarations path) := by
  have hdistinct := (of_ofDeclarations hgraph).2.2
  have hinside : ∀ a b, g.Refers a b → b ∈ g.addresses :=
    fun a b h => mem_addresses_of_refers (edges_of_ofDeclarations hgraph) h
  have hmem : path ∈ g.cycles := by
    rcases hpath with hmem | ⟨span, hcheck⟩
    · exact hmem
    · rcases checkAcyclic_eq hgraph with ⟨_, other, hother, _, hfails⟩ | ⟨_, hpasses⟩
      · rw [hcheck] at hfails
        cases hfails
        exact hother
      · rw [hcheck] at hpasses
        cases hpasses
  have hcircuit := isCircuit_of_mem_cycles hdistinct hinside hmem
  obtain ⟨members, rfl⟩ := exists_members_of_mem_cycles hmem
  have hturns : TurnsBack (RefersAmong declarations) (g.cyclePath members) := by
    intro before a b after hsplit
    rw [← refers_eq_refersAmong hgraph]
    exact cyclePath_turns hsplit hcircuit.1
  refine ⟨hturns, fun hsingle => ?_⟩
  apply isChain_closed_of_single hcircuit.1 hturns hsingle
  intro first hfirst
  rw [← refers_eq_refersAmong hgraph]
  exact (hcircuit.neighbours (List.mem_of_head? hfirst)).2

/-- Three values that refer to each other in a circle; a last value refers into the circle. -/
theorem cycles_turn_circle :
    let value : String → String → Declaration := fun name other =>
      .localValue ⟨name, .ref none ⟨.localName, other⟩, none⟩
    let declarations := [value "a" "b", value "b" "c", value "c" "a", value "d" "b"]
    ∃ g, ofDeclarations declarations = .ok g
      ∧ g.checkAcyclic = fail (.cycle ["local.a", "local.b", "local.c"]) none
      ∧ SingleOn (RefersAmong declarations) ["local.a", "local.b", "local.c"]
      ∧ Joined declarations ["local.a", "local.b", "local.c"] := by
  intro value declarations
  let g : Graph := ⟨[⟨value "a" "b", ["local.b"], []⟩, ⟨value "b" "c", ["local.c"], []⟩,
    ⟨value "c" "a", ["local.a"], []⟩, ⟨value "d" "b", ["local.b"], []⟩]⟩
  have hgraph : ofDeclarations declarations = .ok g := by
    cbv
  have hcheck : g.checkAcyclic = fail (.cycle ["local.a", "local.b", "local.c"]) none := by
    cbv
  have ha : g.dependencies "local.a" = ["local.b"] := by cbv
  have hb : g.dependencies "local.b" = ["local.c"] := by cbv
  have hc : g.dependencies "local.c" = ["local.a"] := by cbv
  have hsingle : SingleOn (RefersAmong declarations) ["local.a", "local.b", "local.c"] := by
    rw [← refers_eq_refersAmong hgraph]
    intro x hx y _ z _ hxy hxz
    unfold Refers at hxy hxz
    simp only [List.mem_cons, List.not_mem_nil, or_false] at hx
    rcases hx with rfl | rfl | rfl <;>
      simp only [ha, hb, hc, List.mem_singleton] at hxy hxz <;> rw [hxy, hxz]
  exact ⟨g, hgraph, hcheck, hsingle, (cycles_turn hgraph (.inr ⟨none, hcheck⟩)).2 hsingle⟩

/-- A value that refers to two others, of which the second one refers to the first one and that one
back.  The search turns back at the first one, although a way through all three leads round. -/
theorem cycles_leave_gap :
    let ref : String → Expr := fun name => .ref none ⟨.localName, name⟩
    let value : String → Expr → Declaration := fun name e => .localValue ⟨name, e, none⟩
    let declarations :=
      [value "a" (.binary none .add (ref "b") (ref "c")), value "b" (ref "a"), value "c" (ref "b")]
    ∃ g, ofDeclarations declarations = .ok g
      ∧ g.cycles = [["local.a", "local.b", "local.c"]]
      ∧ g.checkAcyclic = fail (.cycle ["local.a", "local.b", "local.c"]) none
      ∧ ¬ RefersAmong declarations "local.b" "local.c"
      ∧ ¬ RefersAmong declarations "local.c" "local.a"
      ∧ ¬ Joined declarations ["local.a", "local.b", "local.c"]
      ∧ Joined declarations ["local.a", "local.c", "local.b"] := by
  intro ref value declarations
  let g : Graph := ⟨[⟨value "a" (.binary none .add (ref "b") (ref "c")),
      ["local.b", "local.c"], []⟩,
    ⟨value "b" (ref "a"), ["local.a"], []⟩, ⟨value "c" (ref "b"), ["local.b"], []⟩]⟩
  have hgraph : ofDeclarations declarations = .ok g := by
    cbv
  have hcycles : g.cycles = [["local.a", "local.b", "local.c"]] := by
    cbv
  have hcheck : g.checkAcyclic = fail (.cycle ["local.a", "local.b", "local.c"]) none := by
    cbv
  have ha : g.dependencies "local.a" = ["local.b", "local.c"] := by cbv
  have hb : g.dependencies "local.b" = ["local.a"] := by cbv
  have hc : g.dependencies "local.c" = ["local.b"] := by cbv
  have hgap : ¬ g.Refers "local.b" "local.c" := by simp [Refers, hb]
  refine ⟨g, hgraph, hcycles, hcheck, ?_⟩
  unfold Joined
  rw [← refers_eq_refersAmong hgraph]
  refine ⟨hgap, by simp [Refers, hc], fun hjoined => ?_, ?_⟩
  · simp only [List.take, List.cons_append, List.nil_append, List.isChain_cons_cons] at hjoined
    exact hgap hjoined.2.1
  · simp [Refers, ha, hb, hc]

end Graph

end Groundplan
