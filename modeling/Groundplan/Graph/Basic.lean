import Groundplan.Declaration
import Groundplan.Problem

/-!
# Graphs of declarations

The nodes of a graph are declarations, and an edge leads from a declaration to each one that it
refers to.  All orders follow the list in which the declarations were given.

## Main definitions

- `Graph`, `Graph.ofDeclarations`
- `Graph.dependencies`, `Graph.dependents`: the edges in both directions
- `Graph.missing`: references to what nothing declares
-/

namespace Groundplan

/-- A declaration with its edges. -/
structure Graph.Node where
  declaration : Declaration
  /-- Addresses of the declarations referred to, each once, in their order. -/
  dependencies : List String
  /-- References to what nothing declares, in the order of their addresses. -/
  missing : List SymbolPath

/-- Declarations with their edges, in the order in which they were given. -/
structure Graph where
  nodes : List Graph.Node

namespace Graph

/-- Address of a node's declaration. -/
def Node.address (n : Node) : String :=
  n.declaration.address

/-- The node of a declaration among others. -/
def Node.among (addresses : List String) (d : Declaration) : Node :=
  let found := d.references.map SymbolPath.address
  ⟨d, addresses.filter found.contains,
    d.references.filter fun path => !addresses.contains path.address⟩

/-- The first declaration with the address of an earlier one. -/
def duplicate? (earlier : List String) : List Declaration → Option Declaration
  | [] => none
  | d :: ds =>
    if earlier.contains d.address then some d else duplicate? (d.address :: earlier) ds

/-- The graph of some declarations, whose addresses must be different. -/
def ofDeclarations (declarations : List Declaration) : Outcome Graph :=
  match duplicate? [] declarations with
  | some d =>
    fail (.configuration ("duplicate declaration '" ++ d.address ++ "'")
      ["each declaration address must be unique"]) d.span
  | none =>
    let addresses := declarations.map Declaration.address
    .ok ⟨declarations.map (Node.among addresses)⟩

/-- All addresses. -/
def addresses (g : Graph) : List String :=
  g.nodes.map Node.address

/-- Number of declarations. -/
def size (g : Graph) : Nat :=
  g.nodes.length

/-- The node at an address. -/
def node? (g : Graph) (address : String) : Option Node :=
  g.nodes.find? (·.address == address)

/-- Whether something is declared at an address. -/
def has (g : Graph) (address : String) : Bool :=
  (g.node? address).isSome

/-- Place of an address in the list of declarations. -/
def position (g : Graph) (address : String) : Nat :=
  g.addresses.idxOf address

/-- The declaration at an address. -/
def declaration? (g : Graph) (address : String) : Option Declaration :=
  (g.node? address).map Node.declaration

/-- The declarations that one refers to. -/
def dependencies (g : Graph) (address : String) : List String :=
  match g.node? address with
  | some n => n.dependencies
  | none => []

/-- The declarations that refer to one. -/
def dependents (g : Graph) (address : String) : List String :=
  (g.nodes.filter fun n => n.dependencies.contains address).map Node.address

/-- References of a declaration to what nothing declares. -/
def missing (g : Graph) (address : String) : List SymbolPath :=
  match g.node? address with
  | some n => n.missing
  | none => []

end Graph

end Groundplan
