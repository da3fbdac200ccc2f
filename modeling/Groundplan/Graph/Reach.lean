import Groundplan.Graph.Basic
import Groundplan.Table

/-!
# What a graph's edges lead to

## Main definitions

- `Graph.gather`: what can be reached, in the order of a depth-first search
- `Graph.dependentsClosure`: all declarations that depend on some others
- `Graph.chain`: a shortest path of references

## Main statements

- `Graph.mem_of_mem_gather`, `Graph.nodup_gather`: a search finds some of the addresses, each once
-/

namespace Groundplan

namespace Graph

/-- The addresses among `remaining` that can be reached from `pending` without leaving
`remaining`, in the order of a depth-first search. -/
def gather (next : String → List String) (remaining pending : List String) : List String :=
  match _found : pending.find? remaining.contains with
  | none => []
  | some selected =>
    selected :: gather next (remaining.erase selected) (next selected ++ pending)
termination_by remaining.length
decreasing_by
  have member : selected ∈ remaining := List.contains_iff_mem.mp (List.find?_some _found)
  have smaller := List.length_erase_of_mem member
  have positive := List.length_pos_of_mem member
  omega

/-- Nothing is gathered when nothing that is pending remains. -/
theorem gather_of_find?_eq_none {next : String → List String} {remaining pending : List String}
    (found : pending.find? remaining.contains = none) : gather next remaining pending = [] := by
  rw [gather, found]

/-- The first of what is pending that remains is gathered, and what is next to it becomes
pending. -/
theorem gather_of_find?_eq_some {next : String → List String} {remaining pending : List String}
    {selected : String} (found : pending.find? remaining.contains = some selected) :
    gather next remaining pending
      = selected :: gather next (remaining.erase selected) (next selected ++ pending) := by
  rw [gather, found]

/-- What is gathered lies among the addresses to choose from. -/
theorem mem_of_mem_gather {next : String → List String} {remaining pending : List String}
    {address : String} (member : address ∈ gather next remaining pending) :
    address ∈ remaining := by
  induction remaining, pending using gather.induct next with
  | case1 remaining pending found =>
    rw [gather_of_find?_eq_none found] at member
    exact absurd member List.not_mem_nil
  | case2 remaining pending selected found ih =>
    rw [gather_of_find?_eq_some found] at member
    rcases List.mem_cons.mp member with same | later
    · exact same ▸ List.contains_iff_mem.mp (List.find?_some found)
    · exact List.mem_of_mem_erase (ih later)

/-- Every address is gathered once at most. -/
theorem nodup_gather {next : String → List String} {remaining pending : List String}
    (distinct : remaining.Nodup) : (gather next remaining pending).Nodup := by
  induction remaining, pending using gather.induct next with
  | case1 remaining pending found =>
    rw [gather_of_find?_eq_none found]
    exact List.nodup_nil
  | case2 remaining pending selected found ih =>
    rw [gather_of_find?_eq_some found]
    refine List.nodup_cons.mpr ⟨?_, ih (distinct.erase selected)⟩
    intro again
    exact distinct.not_mem_erase (mem_of_mem_gather again)

/-- The declarations that one refers to, directly or through others. -/
def dependencyClosure (g : Graph) (address : String) : List String :=
  gather g.dependencies g.addresses (g.dependencies address)

/-! ## Addresses among others -/

/-- The addresses that are among others, in their order. -/
def among (others addresses : List String) : List String :=
  addresses.filter others.contains

/-- The addresses that are not among others, in their order. -/
def besides (others addresses : List String) : List String :=
  addresses.filter (!others.contains ·)

/-- A list is split by a test and its negation. -/
theorem length_filter_not_add_length_filter (test : String → Bool) (addresses : List String) :
    (addresses.filter (!test ·)).length + (addresses.filter test).length = addresses.length := by
  induction addresses with
  | nil => rfl
  | cons a rest ih =>
    cases holds : test a <;>
      simp only [List.filter_cons, holds, Bool.not_true, Bool.not_false, if_true, List.length_cons,
        Bool.false_eq_true, if_false] <;> omega

/-- Every address is either among others or not. -/
theorem length_besides_add_length_among (others addresses : List String) :
    (besides others addresses).length + (among others addresses).length = addresses.length :=
  length_filter_not_add_length_filter others.contains addresses

/-- Leaving out more addresses is leaving them out of what is left. -/
theorem besides_append (others more addresses : List String) :
    besides (others ++ more) addresses = besides more (besides others addresses) := by
  simp [besides, List.filter_filter, Bool.and_comm]

/-- Of what is left, a part that is left out as well makes it shorter by itself at least. -/
theorem length_besides_append_add_le {others more addresses : List String}
    (part : more.Sublist (besides others addresses)) :
    (besides (others ++ more) addresses).length + more.length
      ≤ (besides others addresses).length := by
  have split := length_besides_add_length_among more (besides others addresses)
  have own : among more more = more := List.filter_eq_self.mpr fun a member =>
    List.contains_iff_mem.mpr member
  have shorter := (part.filter more.contains).length_le
  rw [besides_append]
  unfold among at split own
  rw [own] at shorter
  omega

/-! ## What refers to some declarations -/

/-- The declarations that refer to an address are among all declarations, in their order. -/
theorem dependents_sublist (g : Graph) (address : String) :
    (g.dependents address).Sublist g.addresses :=
  List.filter_sublist.map Node.address

/-- Add to a closure what refers to an address that is pending, as far as it is new; it is pending
then, too. -/
def dependentsFrom (g : Graph) (closure : List String) : List String → List String
  | [] => closure
  | address :: pending =>
    let fresh := besides closure (g.dependents address)
    dependentsFrom g (closure ++ fresh) (pending ++ fresh)
termination_by pending => (besides closure g.addresses).length + pending.length
decreasing_by
  have fewer := @length_besides_append_add_le closure _ g.addresses
    ((g.dependents_sublist address).filter (!closure.contains ·))
  unfold besides at fewer ⊢
  simp only [List.length_append, List.length_cons]
  omega

theorem dependentsFrom_nil (g : Graph) (closure : List String) :
    g.dependentsFrom closure [] = closure := by
  rw [dependentsFrom]

theorem dependentsFrom_cons (g : Graph) (closure : List String) (address : String)
    (pending : List String) :
    g.dependentsFrom closure (address :: pending)
      = g.dependentsFrom (closure ++ besides closure (g.dependents address))
          (pending ++ besides closure (g.dependents address)) := by
  rw [dependentsFrom]

/-- All declarations that refer, directly or through others, to one of the given addresses.  These
are pending at first without being part of the closure. -/
def dependentsClosure (g : Graph) (starts : List String) : List String :=
  g.dependentsFrom [] starts

/-! ## Shortest paths -/

/-- Where a breadth-first search stands. -/
structure Search where
  /-- For every address that has been come to, the one from which it was come to first. -/
  previous : Table String String
  /-- The addresses whose dependencies are to be looked at, those first that were come to first. -/
  pending : List String

namespace Search

/-- Come to an address that `last` refers to.  Nothing is to be done for one that has been come to
before; the target ends the search with what has been noted. -/
def meet (start target last : String) (s : Search) (address : String) :
    Except (Table String String) Search :=
  if Table.has s.previous address || address = start then .ok s
  else
    let previous := Table.put s.previous address last
    if address = target then .error previous else .ok ⟨previous, s.pending ++ [address]⟩

/-- All that declarations refer to, as often as it is referred to. -/
def goals (g : Graph) : List String :=
  g.nodes.flatMap Node.dependencies

/-- How many steps a search has left at most. -/
def effort (g : Graph) (s : Search) : Nat :=
  (besides (Table.keys s.previous) (goals g)).length + s.pending.length

theorem mem_goals {g : Graph} {last address : String} (member : address ∈ g.dependencies last) :
    address ∈ goals g := by
  unfold dependencies at member
  split at member
  · rename_i n found
    exact List.mem_flatMap.mpr ⟨n, List.mem_of_find?_eq_some found, member⟩
  · exact absurd member List.not_mem_nil

/-- What becomes pending is not to be come to again. -/
theorem meet_effort {g : Graph} {start target last address : String} {s later : Search}
    (goal : address ∈ goals g) (met : s.meet start target last address = .ok later) :
    later.effort g ≤ s.effort g := by
  unfold meet at met
  split at met
  · cases met
    exact Nat.le_refl _
  · rename_i unmet
    split at met
    · cases met
    · cases met
      have fresh : address ∉ Table.keys s.previous := by
        intro member
        simp [(Table.has_iff_mem_keys s.previous address).mpr member] at unmet
      have part : [address].Sublist (besides (Table.keys s.previous) (goals g)) := by
        apply List.singleton_sublist.mpr
        simp [besides, goal, fresh]
      have fewer := length_besides_append_add_le part
      simp only [effort, Table.keys_put, fresh, if_false, List.length_append]
      omega

/-- Looking at some dependencies does not make the search longer. -/
theorem foldlM_meet_effort {g : Graph} {start target last : String} {addresses : List String}
    {s later : Search} (all : ∀ address ∈ addresses, address ∈ goals g)
    (met : addresses.foldlM (meet start target last) s = .ok later) :
    later.effort g ≤ s.effort g := by
  induction addresses generalizing s with
  | nil =>
    cases met
    exact Nat.le_refl _
  | cons address rest ih =>
    rw [List.foldlM_cons] at met
    cases first : s.meet start target last address with
    | error previous =>
      rw [first] at met
      cases met
    | ok next =>
      rw [first] at met
      have later_le := ih (fun a member => all a (List.mem_cons_of_mem _ member)) met
      exact Nat.le_trans later_le (meet_effort (all address List.mem_cons_self) first)

/-- Search for the target from the addresses that are pending. -/
def run (g : Graph) (start target : String) (s : Search) : Option (Table String String) :=
  match _begun : s.pending with
  | [] => none
  | last :: pending =>
    match _met : (g.dependencies last).foldlM (meet start target last) ⟨s.previous, pending⟩ with
    | .error previous => some previous
    | .ok later => run g start target later
termination_by s.effort g
decreasing_by
  have fewer := foldlM_meet_effort (fun _ member => mem_goals member) _met
  simp only [effort, _begun, List.length_cons] at fewer ⊢
  omega

section Run

variable {g : Graph} {start target last : String} {pending : List String} {s later : Search}
  {previous : Table String String}

/-- A search is over when nothing is pending. -/
theorem run_of_pending_nil (begun : s.pending = []) : s.run g start target = none := by
  rw [run, begun]

/-- A search is over when a reference leads to the target. -/
theorem run_of_error (begun : s.pending = last :: pending)
    (met : (g.dependencies last).foldlM (meet start target last) ⟨s.previous, pending⟩
      = .error previous) :
    s.run g start target = some previous := by
  rw [run, begun]
  dsimp only
  rw [met]

/-- A search goes on after all references of the first pending address have been followed. -/
theorem run_of_ok (begun : s.pending = last :: pending)
    (met : (g.dependencies last).foldlM (meet start target last) ⟨s.previous, pending⟩
      = .ok later) :
    s.run g start target = later.run g start target := by
  rw [run, begun]
  dsimp only
  rw [met]

end Run

end Search

/-- Go back from an address to the start, in front of the way that has been gone already.  Every
note is used once; one that would be needed again leads round in a circle. -/
def retrace (start : String) (previous : Table String String) (last : String)
    (way : List String) : Option (List String) :=
  if last = start then some (last :: way)
  else
    match _found : Table.get? previous last with
    | none => none
    | some before => retrace start (Table.erase previous last) before (last :: way)
termination_by previous.length
decreasing_by
  exact Table.length_erase_lt _found

theorem retrace_self (start : String) (previous : Table String String) (way : List String) :
    retrace start previous start way = some (start :: way) := by
  rw [retrace, if_pos rfl]

/-- Going back one step. -/
theorem retrace_of_get? {start last before : String} {previous : Table String String}
    (unlike : last ≠ start) (found : Table.get? previous last = some before) (way : List String) :
    retrace start previous last way
      = retrace start (Table.erase previous last) before (last :: way) := by
  rw [retrace, if_neg unlike, found]

/-- A shortest path of references from a declaration to another; the start must be declared unless
it is also the target. -/
def chain (g : Graph) (start target : String) : Option (Option (List String)) :=
  if start = target then some (some [start])
  else if g.has start then
    match Search.run g start target ⟨[], [start]⟩ with
    | none => some none
    | some previous => (retrace start previous target []).map some
  else none

end Graph

end Groundplan
