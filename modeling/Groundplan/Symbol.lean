/-!
# Symbols

A symbol path is a scoped name such as `var.region` or `server.web`.

## Main definitions

- `SymbolKind`, `SymbolPath`
- `SymbolPath.address`: the path as it is written
-/

namespace Groundplan

/-- The scope that a name lives in. -/
inductive SymbolKind where
  | variableName
  | localName
  | resource
  | output
  /-- Key and value of a keyed instance. -/
  | each
  /-- Index of a counted instance. -/
  | count
  /-- Names bound by comprehensions and directives. -/
  | bound
deriving DecidableEq, Repr, Inhabited

namespace SymbolKind

/-- Name of a kind. -/
def label : SymbolKind → String
  | .variableName => "variable"
  | .localName => "local"
  | .resource => "resource"
  | .output => "output"
  | .each => "each"
  | .count => "count"
  | .bound => "bound"

/-- All kinds. -/
def all : List SymbolKind :=
  [.variableName, .localName, .resource, .output, .each, .count, .bound]

/-- What stands in front of a name of the kind. -/
def lead : SymbolKind → String
  | .variableName => "var."
  | .localName => "local."
  | .output => "output."
  | .each => "each."
  | .count => "count."
  | .resource => ""
  | .bound => ""

/-- Whether names of the kind are declared. -/
def isDeclaration : SymbolKind → Bool
  | .variableName | .localName | .resource | .output => true
  | _ => false

/-- Whether expressions may refer to declarations of the kind. -/
def isReferenceable : SymbolKind → Bool
  | .variableName | .localName | .resource => true
  | _ => false

end SymbolKind

/-- A scoped name.  The name of a resource includes its type. -/
structure SymbolPath where
  kind : SymbolKind
  name : String
deriving DecidableEq, Repr, Inhabited

namespace SymbolPath

/-- The path as it is written, which is also the address of the declaration that it names. -/
def address (p : SymbolPath) : String :=
  p.kind.lead ++ p.name

/-- The path of a name bound by a comprehension. -/
def bound (name : String) : SymbolPath :=
  ⟨.bound, name⟩

/-- The key of a keyed instance. -/
def eachKey : SymbolPath := ⟨.each, "key"⟩

/-- The value of a keyed instance. -/
def eachValue : SymbolPath := ⟨.each, "value"⟩

/-- The index of a counted instance. -/
def countIndex : SymbolPath := ⟨.count, "index"⟩

/-- The element of a splat, under a name that no identifier spells. -/
def splatItem : SymbolPath := ⟨.bound, "*"⟩

end SymbolPath

end Groundplan
