import Groundplan.Graph.Component

/-!
# Orders of a graph

Without cycles the declarations have an order in which each one comes after those that it refers
to.  It is found by counting: for each declaration the dependencies that have not been taken are
counted, one that has none left is ready, and taking it counts one less for all that refer to it.

## Main definitions

- `Graph.checkAcyclic`: the first cycle as an error
- `Graph.referrers`: the edges turned round, entered one after another
- `Graph.countDown`, `Graph.orderFrom`: taking what is ready
- `Graph.topologicalOrder`

## Main statements

- `Graph.countDown_fewer`: what becomes ready had something left before
-/

namespace Groundplan

namespace Graph

/-! ## Cycles -/

/-- Fail with the first cycle, at the place of its first declaration. -/
def checkAcyclic (g : Graph) : Outcome Unit :=
  match g.cycles with
  | [] => .ok ()
  | path :: _ => fail (.cycle path) ((path.head?.bind g.declaration?).bind Declaration.span)

/-! ## What is held back -/

/-- The addresses of declarations that have a dependency which is not placed. -/
def held (g : Graph) (placed addresses : List String) : List String :=
  addresses.filter fun address => !(g.dependencies address).all placed.contains

/-- The addresses of declarations all of whose dependencies are placed. -/
def released (g : Graph) (placed addresses : List String) : List String :=
  addresses.filter fun address => (g.dependencies address).all placed.contains

/-- Every declaration is either held or released. -/
theorem length_held_add_length_released (g : Graph) (placed addresses : List String) :
    (g.held placed addresses).length + (g.released placed addresses).length
      = addresses.length :=
  length_filter_not_add_length_filter
    (fun address => (g.dependencies address).all placed.contains) addresses

/-! ## Edges turned round -/

/-- Note at every dependency of a declaration that the declaration refers to it. -/
def enterNode (referrers : Table String (List String)) (n : Node) : Table String (List String) :=
  n.dependencies.foldl
    (fun t dependency =>
      Table.put t dependency ((Table.get? t dependency).getD [] ++ [n.address]))
    referrers

/-- For each declaration those that refer to it, entered declaration by declaration. -/
def referrers (g : Graph) : Table String (List String) :=
  g.nodes.foldl enterNode (g.addresses.map fun address => (address, []))

/-! ## Counting down -/

/-- For each declaration the number of its dependencies. -/
def dependencyCounts (g : Graph) : Table String Int :=
  g.nodes.map fun n => (n.address, (n.dependencies.length : Int))

/-- Count one less for some declarations, one after another.  Those for which nothing is left
after that are returned with the counts. -/
def countDown : List String → Table String Int → List String × Table String Int
  | [], counts => ([], counts)
  | address :: rest, counts =>
    let left := (Table.get? counts address).getD 0 - 1
    let (freed, counts) := countDown rest (Table.put counts address left)
    (if left = 0 then address :: freed else freed, counts)

theorem countDown_nil (counts : Table String Int) : countDown [] counts = ([], counts) :=
  rfl

theorem countDown_cons (address : String) (rest : List String) (counts : Table String Int) :
    countDown (address :: rest) counts =
      let left := (Table.get? counts address).getD 0 - 1
      let counted := countDown rest (Table.put counts address left)
      (if left = 0 then address :: counted.1 else counted.1, counted.2) :=
  rfl

/-- How many of the counts have something left. -/
def unfinished (counts : Table String Int) : Nat :=
  counts.countP fun entry => decide (0 < entry.2)

/-- Where the last one is counted, there is one less with something left. -/
theorem unfinished_put (counts : Table String Int) (address : String) :
    unfinished (Table.put counts address ((Table.get? counts address).getD 0 - 1))
        + (if (Table.get? counts address).getD 0 - 1 = 0 then 1 else 0)
      ≤ unfinished counts := by
  induction counts with
  | nil => simp [unfinished, Table.put_nil]
  | cons entry rest ih =>
    obtain ⟨key, count⟩ := entry
    by_cases same : key = address
    · simp only [Table.get?_cons, Table.put_cons, same, if_true, Option.getD_some, unfinished,
        List.countP_cons, decide_eq_true_eq]
      split <;> split <;> split <;> omega
    · simp only [Table.get?_cons, Table.put_cons, same, if_false, unfinished, List.countP_cons] at ih ⊢
      omega

/-- What becomes ready had something left before. -/
theorem countDown_fewer (addresses : List String) (counts : Table String Int) :
    (countDown addresses counts).1.length + unfinished (countDown addresses counts).2
      ≤ unfinished counts := by
  induction addresses generalizing counts with
  | nil => simp [countDown_nil]
  | cons address rest ih =>
    have first := unfinished_put counts address
    have fewer := ih (Table.put counts address ((Table.get? counts address).getD 0 - 1))
    simp only [countDown_cons]
    split at first
    · rw [if_pos ‹_›, List.length_cons]
      omega
    · rw [if_neg ‹_›]
      omega

/-- Take the addresses of `ready` one after another; each time one less is counted for those that
refer to it, and what has nothing left becomes ready behind the others. -/
def orderFrom (referrers : Table String (List String)) (counts : Table String Int) :
    List String → List String
  | [] => []
  | address :: ready =>
    let counted := countDown ((Table.get? referrers address).getD []) counts
    address :: orderFrom referrers counted.2 (ready ++ counted.1)
termination_by ready => unfinished counts + ready.length
decreasing_by
  have fewer := countDown_fewer ((Table.get? referrers address).getD []) counts
  simp only [List.length_append, List.length_cons]
  omega

theorem orderFrom_nil (referrers : Table String (List String)) (counts : Table String Int) :
    orderFrom referrers counts [] = [] := by
  rw [orderFrom]

theorem orderFrom_cons (referrers : Table String (List String)) (counts : Table String Int)
    (address : String) (ready : List String) :
    orderFrom referrers counts (address :: ready) =
      let counted := countDown ((Table.get? referrers address).getD []) counts
      address :: orderFrom referrers counted.2 (ready ++ counted.1) := by
  rw [orderFrom]

/-- All addresses, each behind those of its dependencies. -/
def topologicalOrder (g : Graph) : Outcome (List String) := do
  g.checkAcyclic
  let counts := g.dependencyCounts
  let ready := g.addresses.filter fun address => Table.get? counts address == some 0
  return orderFrom g.referrers counts ready

end Graph

end Groundplan
