import Groundplan.Source

/-!
# Nodes

A node is a declaration or one instance of a resource template, which is told from the others by
its key.

## Main definitions

- `InstanceKey`, `NodeId`
- `InstanceKey.atMost`, `InstanceKey.optionAtMost`: the order of keys
-/

namespace Groundplan

/-- Key of an instance: its place in a count, or a name. -/
inductive InstanceKey where
  | index (i : Int)
  | name (s : String)
deriving DecidableEq, Repr, Inhabited

namespace InstanceKey

/-- Whether a key does not come after another: places come before names. -/
def atMost : InstanceKey → InstanceKey → Bool
  | .index i, .index j => i ≤ j
  | .index _, .name _ => true
  | .name _, .index _ => false
  | .name s, .name t => s ≤ t

/-- Whether a key does not come after another, where no key comes before all keys. -/
def optionAtMost : Option InstanceKey → Option InstanceKey → Bool
  | none, _ => true
  | some _, none => false
  | some a, some b => a.atMost b

/-! ### The order is total -/

@[simp]
theorem atMost_index_index (i j : Int) : (index i).atMost (index j) = decide (i ≤ j) :=
  rfl

@[simp]
theorem atMost_index_name (i : Int) (t : String) : (index i).atMost (name t) = true :=
  rfl

@[simp]
theorem atMost_name_index (s : String) (j : Int) : (name s).atMost (index j) = false :=
  rfl

@[simp]
theorem atMost_name_name (s t : String) : (name s).atMost (name t) = decide (s ≤ t) :=
  rfl

theorem atMost_total (a b : InstanceKey) : a.atMost b = true ∨ b.atMost a = true := by
  cases a <;> cases b <;> simp [Int.le_total, String.le_total]

theorem atMost_trans (a b c : InstanceKey) (h : a.atMost b = true) (h' : b.atMost c = true) :
    a.atMost c = true := by
  cases a <;> cases b <;> cases c <;> simp_all
  · exact Int.le_trans h h'
  · exact String.le_trans h h'

theorem atMost_antisymm (a b : InstanceKey) (h : a.atMost b = true) (h' : b.atMost a = true) :
    a = b := by
  cases a <;> cases b <;> simp_all
  · exact Int.le_antisymm h h'
  · exact String.le_antisymm h h'

@[simp]
theorem optionAtMost_none (b : Option InstanceKey) : optionAtMost none b = true :=
  rfl

@[simp]
theorem optionAtMost_some_none (a : InstanceKey) : optionAtMost (some a) none = false :=
  rfl

@[simp]
theorem optionAtMost_some_some (a b : InstanceKey) :
    optionAtMost (some a) (some b) = a.atMost b :=
  rfl

theorem optionAtMost_total (a b : Option InstanceKey) :
    optionAtMost a b = true ∨ optionAtMost b a = true := by
  cases a <;> cases b <;> simp [atMost_total]

theorem optionAtMost_trans (a b c : Option InstanceKey) (h : optionAtMost a b = true)
    (h' : optionAtMost b c = true) : optionAtMost a c = true := by
  cases a <;> cases b <;> cases c <;> simp_all
  exact atMost_trans _ _ _ h h'

theorem optionAtMost_antisymm (a b : Option InstanceKey) (h : optionAtMost a b = true)
    (h' : optionAtMost b a = true) : a = b := by
  cases a <;> cases b <;> simp_all
  exact atMost_antisymm _ _ h h'

end InstanceKey

/-- A declaration, or an instance of it if there is a key. -/
structure NodeId where
  address : String
  key : Option InstanceKey
deriving DecidableEq, Repr, Inhabited

namespace NodeId

/-- Text of a node. -/
def text (n : NodeId) : String :=
  match n.key with
  | none => n.address
  | some (.index i) => n.address ++ "[" ++ showInt i ++ "]"
  | some (.name s) => n.address ++ "[\"" ++ s ++ "\"]"

/-- Whether the node is an instance. -/
def isInstance (n : NodeId) : Bool :=
  n.key.isSome

/-- The node of a declaration. -/
def ofAddress (address : String) : NodeId :=
  ⟨address, none⟩

/-- The declaration that a node belongs to. -/
def template (n : NodeId) : NodeId :=
  ofAddress n.address

end NodeId

end Groundplan
