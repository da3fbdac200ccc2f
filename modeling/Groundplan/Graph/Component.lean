import Groundplan.Graph.Reach
import Groundplan.Sorting
import Groundplan.Table

/-!
# Components of a graph

Declarations that can reach each other make up a component.  One search over all declarations
finds the components: it numbers the declarations as it meets them, keeps those whose component is
not complete on a stack, and notes for each one the least number on the stack that is known to be
reached from it.  A declaration that reaches nothing below its own number completes a component,
which lies on the stack above it.

## Main definitions

- `Graph.Survey`: where the search stands
- `Graph.Survey.step`, `Graph.Survey.explore`: the search from one declaration
- `Graph.cycles`: one path for every component that has a cycle
-/

namespace Groundplan

namespace Graph

/-- The members of a component, in the order in which references are followed from the one that is
declared first. -/
def cyclePath (g : Graph) (members : List String) : List String :=
  gather g.dependencies members (g.addresses.find? members.contains).toList

/-- Where the search for components stands. -/
structure Survey where
  /-- Addresses that have not been met. -/
  remaining : List String
  /-- How many addresses have been met. -/
  count : Nat
  /-- For every address that has been met, how many were met before it. -/
  numbers : Table String Nat
  /-- For every address that has been met, the least number known to be reached from it. -/
  lows : Table String Nat
  /-- Addresses that have been met and whose components are not complete, the last one first. -/
  stack : List String
  /-- The references that are being followed, the last one first: each address with its
  dependencies that have not been looked at. -/
  trail : List (String × List String)
  /-- Paths through the components that are complete and have a cycle. -/
  paths : List (List String)

namespace Survey

/-- The number of an address. -/
def number (s : Survey) (address : String) : Nat :=
  (s.numbers.get? address).getD 0

/-- The least number known to be reached from an address. -/
def low (s : Survey) (address : String) : Nat :=
  (s.lows.get? address).getD 0

/-- The search before any address has been met. -/
def start (g : Graph) : Survey :=
  ⟨g.addresses, 0, [], [], [], [], []⟩

/-- Meet an address, to look at its dependencies next. -/
def enter (g : Graph) (s : Survey) (address : String) : Survey :=
  { s with
    remaining := s.remaining.erase address
    count := s.count + 1
    numbers := s.numbers.put address s.count
    lows := s.lows.put address s.count
    stack := address :: s.stack
    trail := (address, g.dependencies address) :: s.trail }

/-- Note that an address reaches a number. -/
def lower (s : Survey) (address : String) (reached : Nat) : Survey :=
  { s with lows := s.lows.put address (min (s.low address) reached) }

/-- What an address reaches is reached from the one before it on the trail. -/
def handDown (s : Survey) (address : String) : Survey :=
  match s.trail with
  | [] => s
  | (parent, _) :: _ => s.lower parent (s.low address)

/-- Take the component of an address off the stack. -/
def close (g : Graph) (s : Survey) (address : String) : Survey :=
  let members := address :: s.stack.takeWhile (· ≠ address)
  { s with
    stack := (s.stack.dropWhile (· ≠ address)).drop 1
    paths :=
      match decide (1 < members.length) || (g.dependencies address).contains address with
      | true => s.paths ++ [g.cyclePath members]
      | false => s.paths }

/-- Leave an address all of whose dependencies have been looked at. -/
def leave (g : Graph) (s : Survey) (address : String) : Survey :=
  let s := s.handDown address
  if s.low address = s.number address then s.close g address else s

/-- Look at the next dependency of the last address on the trail; there is nothing to do when the
trail is at its end. -/
def step (g : Graph) (s : Survey) : Option Survey :=
  match s.trail with
  | [] => none
  | (address, []) :: rest => some ({ s with trail := rest }.leave g address)
  | (address, child :: later) :: rest =>
    let s := { s with trail := (address, later) :: rest }
    bif s.remaining.contains child then some (s.enter g child)
    else bif s.stack.contains child then some (s.lower address (s.number child))
    else some s

/-! ## Every search ends -/

/-- How many steps the addresses on the trail take. -/
def effort (s : Survey) : Nat :=
  s.trail.length + (s.trail.flatMap Prod.snd).length

theorem lower_trail (s : Survey) (address : String) (reached : Nat) :
    (s.lower address reached).trail = s.trail :=
  rfl

theorem handDown_remaining (s : Survey) (address : String) :
    (s.handDown address).remaining = s.remaining := by
  unfold handDown
  split <;> rfl

theorem handDown_trail (s : Survey) (address : String) :
    (s.handDown address).trail = s.trail := by
  unfold handDown
  split <;> rfl

theorem leave_remaining (g : Graph) (s : Survey) (address : String) :
    (s.leave g address).remaining = s.remaining := by
  simp only [leave]
  split
  · exact s.handDown_remaining address
  · exact s.handDown_remaining address

theorem leave_trail (g : Graph) (s : Survey) (address : String) :
    (s.leave g address).trail = s.trail := by
  simp only [leave]
  split
  · exact s.handDown_trail address
  · exact s.handDown_trail address

/-- A step meets an address, or leaves less to look at. -/
theorem step_smaller {g : Graph} {s later : Survey} (moved : s.step g = some later) :
    later.remaining.length < s.remaining.length
      ∨ later.remaining.length = s.remaining.length ∧ later.effort < s.effort := by
  unfold step at moved
  split at moved
  · cases moved
  · rename_i address rest trail
    cases moved
    exact .inr ⟨by rw [leave_remaining], by simp [effort, leave_trail, trail]⟩
  · rename_i address child pending rest trail
    simp only [Bool.cond_eq_ite] at moved
    split at moved
    · rename_i unmet
      cases moved
      have member : child ∈ s.remaining := List.contains_iff_mem.mp unmet
      have smaller := List.length_erase_of_mem member
      have positive := List.length_pos_of_mem member
      exact .inl (by simp only [enter]; omega)
    · split at moved <;> cases moved
      · exact .inr ⟨rfl, by simp [effort, lower_trail, trail]⟩
      · exact .inr ⟨rfl, by simp [effort, trail]⟩

/-- Search until the trail is at its end. -/
def explore (g : Graph) (s : Survey) : Survey :=
  match _moved : s.step g with
  | none => s
  | some later => explore g later
termination_by (s.remaining.length, s.effort)
decreasing_by
  rcases step_smaller _moved with fewer | ⟨same, shorter⟩
  · exact .left _ _ fewer
  · rw [same]
    exact .right _ shorter

/-- A search is over when there is nothing to do. -/
theorem explore_of_step_eq_none {g : Graph} {s : Survey} (moved : s.step g = none) :
    s.explore g = s := by
  rw [explore, moved]

/-- A search goes on after each step. -/
theorem explore_of_step_eq_some {g : Graph} {s later : Survey} (moved : s.step g = some later) :
    s.explore g = later.explore g := by
  rw [explore, moved]

/-- Search from an address that has not been met. -/
def visit (g : Graph) (s : Survey) (address : String) : Survey :=
  bif s.remaining.contains address then (s.enter g address).explore g else s

end Survey

/-- The search over all declarations. -/
def survey (g : Graph) : Survey :=
  g.addresses.foldl (Survey.visit g) (Survey.start g)

/-- Place of a path's first address in the list of declarations. -/
def place (g : Graph) (path : List String) : Nat :=
  g.position (path.head?.getD "")

/-- One path for every component that has a cycle, in the order of their first declarations. -/
def cycles (g : Graph) : List (List String) :=
  Sorting.sortBy (fun a b => decide (g.place a ≤ g.place b)) g.survey.paths

end Graph

end Groundplan
