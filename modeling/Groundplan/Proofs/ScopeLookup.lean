import Groundplan.Scope

/-!
# What Answers a Look-up

A look-up walks outward, and the first frame that binds the symbol or has a resolver answers.  So
the innermost binding is found if no frame further inside has a resolver, and a resolver answers
for all that is bound further outside, too.  Whatever answers, no more than one suspended
computation is run, and it is run once.

## Main Definitions

- `Scope.binding?`, `Scope.resolver?`: the innermost binding of a symbol and the innermost resolver
- `Scope.walk`: the look-up step by step, with a record of what it runs

## Main Statements

- `Scope.walked_eq`: a look-up and what it runs are what the walk comes to
- `Scope.lookup_innermost`: the innermost binding answers unless a resolver lies further inside
- `Scope.resolver_hides_binding`: a resolver further inside hides a binding
-/

namespace Groundplan

namespace Scope

/-! ## Innermost frames -/

/-- The first offer of a frame, with the number of frames that lie further inside. -/
def innermost? {α : Type} (offer : Frame → Option α) : Scope → Option (Nat × α)
  | [] => none
  | frame :: outer =>
    match offer frame with
    | some a => some (0, a)
    | none => (innermost? offer outer).map fun (depth, a) => (depth + 1, a)

/-- The innermost binding of a symbol. -/
def binding? (scope : Scope) (path : SymbolPath) : Option (Nat × Binding) :=
  scope.innermost? fun frame => Table.get? frame.bindings path

/-- The innermost resolver. -/
def resolver? (scope : Scope) : Option (Nat × (SymbolPath → Outcome Value)) :=
  scope.innermost? Frame.resolver

section Innermost

variable {α : Type} {offer : Frame → Option α}

/-- The innermost offer is that of a frame inside of which there is none. -/
theorem innermost?_eq_some_iff {scope : Scope} {depth : Nat} {a : α} :
    scope.innermost? offer = some (depth, a)
      ↔ ∃ inner frame outer, scope = inner ++ frame :: outer ∧ inner.length = depth
        ∧ offer frame = some a ∧ ∀ f ∈ inner, offer f = none := by
  induction scope generalizing depth with
  | nil => simp [innermost?]
  | cons frame outer ih =>
    unfold innermost?
    cases hoffer : offer frame with
    | some b =>
      constructor
      · intro h
        cases h
        exact ⟨[], frame, outer, rfl, rfl, hoffer, fun f hf => absurd hf List.not_mem_nil⟩
      · rintro ⟨inner, found, rest, hsplit, rfl, hfound, hinner⟩
        cases inner with
        | nil =>
          cases hsplit
          rw [hoffer] at hfound
          cases hfound
          rfl
        | cons f inner =>
          -- The first frame would offer nothing.
          cases hsplit
          rw [hinner frame List.mem_cons_self] at hoffer
          cases hoffer
    | none =>
      constructor
      · intro h
        obtain ⟨⟨depth', a'⟩, hrest, hsame⟩ := Option.map_eq_some_iff.mp h
        cases hsame
        obtain ⟨inner, found, rest, rfl, rfl, hfound, hinner⟩ := ih.mp hrest
        exact ⟨frame :: inner, found, rest, rfl, rfl, hfound,
          List.forall_mem_cons.mpr ⟨hoffer, hinner⟩⟩
      · rintro ⟨inner, found, rest, hsplit, rfl, hfound, hinner⟩
        cases inner with
        | nil =>
          cases hsplit
          rw [hfound] at hoffer
          cases hoffer
        | cons f inner =>
          cases hsplit
          have hrest := ih.mpr ⟨inner, found, rest, rfl, rfl, hfound,
            (List.forall_mem_cons.mp hinner).2⟩
          rw [hrest]
          rfl

end Innermost

/-- A scope contains the symbols that have an innermost binding there. -/
theorem contains_eq (scope : Scope) (path : SymbolPath) :
    scope.contains path = (scope.binding? path).isSome := by
  unfold binding?
  induction scope with
  | nil => rfl
  | cons frame outer ih =>
    rw [contains, List.any_cons, innermost?]
    cases hbound : Table.get? frame.bindings path with
    | some b => simp [Table.has, hbound]
    | none =>
      rw [← contains, ih]
      simp [Table.has, hbound]

/-! ## Look-ups step by step -/

/-- Computations with a record of the suspended computations that they have run, each with the
number of frames that lie further inside than its own.  The record stays when one of them fails. -/
abbrev Recorded (α : Type) := ExceptT Fault (StateM (List (Nat × Consultation))) α

/-- Run a suspended computation and record that. -/
def consult (depth : Nat) (c : Consultation) (compute : Unit → Outcome Value) : Recorded Value := do
  modify (· ++ [(depth, c)])
  ExceptT.mk (pure (compute ()))

/-- Look a symbol up, from a frame outward.  Each frame is asked for a binding before its resolver,
and the frames around it come after both. -/
def walk (path : SymbolPath) (span : Option Span) : Nat → Scope → Recorded Value
  | _, [] => throw (.error ⟨.undefinedSymbol path.address [], span, []⟩)
  | depth, frame :: outer =>
    match Table.get? frame.bindings path with
    | some (.value v) => return v
    | some (.deferred compute) => consult depth (.deferred path) compute
    | none =>
      match frame.resolver with
      | some resolve => consult depth (.resolver path) fun _ => resolve path
      | none => walk path span (depth + 1) outer

/-- What looking a symbol up comes to, and the record of what it has run. -/
def walked (scope : Scope) (path : SymbolPath) (span : Option Span) :
    Outcome Value × List (Nat × Consultation) :=
  (walk path span 0 scope).run.run []

/-- What a binding answers, and the record of that. -/
def answer (path : SymbolPath) (depth : Nat) : Binding → Outcome Value × List (Nat × Consultation)
  | .value v => (.ok v, [])
  | .deferred compute => (compute (), [(depth, .deferred path)])

section Walk

variable {path : SymbolPath} {span : Option Span} {depth : Nat} {frame : Frame} {outer : Scope}

theorem walk_of_binding {b : Binding} (h : Table.get? frame.bindings path = some b) :
    (walk path span depth (frame :: outer)).run.run [] = answer path depth b := by
  unfold walk
  rw [h]
  cases b <;> rfl

theorem walk_of_resolver {resolve : SymbolPath → Outcome Value}
    (hbound : Table.get? frame.bindings path = none) (h : frame.resolver = some resolve) :
    (walk path span depth (frame :: outer)).run.run []
      = (resolve path, [(depth, .resolver path)]) := by
  unfold walk
  rw [hbound, h]
  rfl

theorem walk_of_none (hbound : Table.get? frame.bindings path = none)
    (h : frame.resolver = none) :
    walk path span depth (frame :: outer) = walk path span (depth + 1) outer := by
  rw [walk, hbound, h]

/-- A walk from some frame outward is answered by the innermost binding, by the innermost resolver
if that lies further inside, and by nobody if there is neither. -/
theorem walk_eq (path : SymbolPath) (span : Option Span) (depth : Nat) (scope : Scope) :
    (walk path span depth scope).run.run []
      = match scope.binding? path, scope.resolver? with
        | some (i, b), some (j, resolve) =>
          if i ≤ j then answer path (depth + i) b
          else (resolve path, [(depth + j, .resolver path)])
        | some (i, b), none => answer path (depth + i) b
        | none, some (j, resolve) => (resolve path, [(depth + j, .resolver path)])
        | none, none => (fail (.undefinedSymbol path.address []) span, []) := by
  unfold binding? resolver?
  induction scope generalizing depth with
  | nil => rfl
  | cons frame outer ih =>
    unfold innermost?
    cases hbound : Table.get? frame.bindings path with
    | some b =>
      rw [walk_of_binding hbound]
      cases frame.resolver with
      | some resolve => simp
      | none => cases innermost? Frame.resolver outer <;> simp
    | none =>
      cases hresolver : frame.resolver with
      | some resolve =>
        rw [walk_of_resolver hbound hresolver]
        cases innermost? (fun frame => Table.get? frame.bindings path) outer <;> simp
      | none =>
        -- Everything lies one frame further outside.
        rw [walk_of_none hbound hresolver, ih]
        cases innermost? (fun frame => Table.get? frame.bindings path) outer <;>
          cases innermost? Frame.resolver outer <;>
            simp [Nat.add_assoc, Nat.add_comm 1]

end Walk

/-- A look-up and what it runs are what the walk comes to. -/
theorem walked_eq (scope : Scope) (path : SymbolPath) (span : Option Span) :
    (scope.walked path span).1 = scope.lookup path span
      ∧ (scope.walked path span).2.map Prod.snd = scope.consultations path := by
  suffices h : ∀ depth,
      ((walk path span depth scope).run.run []).1 = scope.lookup path span
        ∧ ((walk path span depth scope).run.run []).2.map Prod.snd = scope.consultations path from
    h 0
  unfold lookup consultations
  induction scope with
  | nil => exact fun depth => ⟨rfl, rfl⟩
  | cons frame outer ih =>
    intro depth
    unfold find
    cases hbound : Table.get? frame.bindings path with
    | some b =>
      rw [walk_of_binding hbound]
      cases b <;> exact ⟨rfl, rfl⟩
    | none =>
      cases hresolver : frame.resolver with
      | some resolve =>
        rw [walk_of_resolver hbound hresolver]
        exact ⟨rfl, rfl⟩
      | none =>
        rw [walk_of_none hbound hresolver]
        exact ih (depth + 1)

/-! ## Main statement -/

/-- **The innermost binding answers unless a resolver lies further inside.**  If a symbol is bound
in a scope, its innermost binding answers, is run once if it is deferred, and no resolver is
consulted, as long as no frame further inside has a resolver; otherwise the innermost resolver
answers instead of the binding.  If the symbol is not bound, the innermost resolver answers, and it
is the only one that is consulted; without any, the symbol is undefined. -/
theorem lookup_innermost (scope : Scope) (path : SymbolPath) (span : Option Span) :
    (scope.contains path = true → ∃ depth b, scope.binding? path = some (depth, b)
        ∧ ((∀ j resolve, scope.resolver? = some (j, resolve) → depth ≤ j) →
            scope.walked path span = answer path depth b)
        ∧ ∀ j resolve, scope.resolver? = some (j, resolve) → j < depth →
            scope.walked path span = (resolve path, [(j, .resolver path)]))
      ∧ (scope.contains path = false →
          scope.walked path span = match scope.resolver? with
            | some (j, resolve) => (resolve path, [(j, .resolver path)])
            | none => (fail (.undefinedSymbol path.address []) span, []))
      ∧ (scope.walked path span).1 = scope.lookup path span
      ∧ (scope.walked path span).2.map Prod.snd = scope.consultations path := by
  have hwalk := walk_eq path span 0 scope
  rw [← walked] at hwalk
  simp only [Nat.zero_add] at hwalk
  refine ⟨fun hcontains => ?_, fun hcontains => ?_, walked_eq scope path span⟩
  · rw [contains_eq] at hcontains
    obtain ⟨⟨depth, b⟩, hbinding⟩ := Option.isSome_iff_exists.mp hcontains
    rw [hbinding] at hwalk
    refine ⟨depth, b, hbinding, fun hshielded => ?_, fun j resolve hresolver hinside => ?_⟩
    · cases hresolver : scope.resolver? with
      | none => rw [hwalk, hresolver]
      | some found =>
        rw [hwalk, hresolver]
        exact if_pos (hshielded found.1 found.2 hresolver)
    · rw [hwalk, hresolver]
      exact if_neg (Nat.not_le.mpr hinside)
  · rw [contains_eq, Option.isSome_eq_false_iff, Option.isNone_iff_eq_none] at hcontains
    rw [hwalk, hcontains]
    cases scope.resolver? <;> rfl

/-- A deferred binding in a frame with a resolver is run, and the resolver is not consulted. -/
theorem lookup_innermost_deferred :
    let path : SymbolPath := ⟨.localName, "x"⟩
    let inner : Frame := ⟨[(⟨.localName, "y"⟩, .value .null)], none⟩
    let root : Frame :=
      ⟨[(path, .deferred fun _ => .ok (.bool true))], some fun _ => .ok (.bool false)⟩
    Scope.contains [inner, root] path = true
      ∧ Scope.walked [inner, root] path none = (.ok (.bool true), [(1, .deferred path)]) := by
  intro path inner root
  have hcontains : Scope.contains [inner, root] path = true := by decide
  refine ⟨hcontains, ?_⟩
  obtain ⟨depth, b, hbinding, hanswers, _⟩ :=
    (lookup_innermost [inner, root] path none).1 hcontains
  cases hbinding
  refine hanswers fun j resolve hresolver => ?_
  cases hresolver
  exact Nat.le_refl 1

/-- A resolver hides what is bound in the frames around its own. -/
theorem resolver_hides_binding :
    let path : SymbolPath := ⟨.localName, "x"⟩
    let inner : Frame := ⟨[], some fun _ => .ok (.bool false)⟩
    let root : Frame := ⟨[(path, .value (.bool true))], none⟩
    Scope.contains [inner, root] path = true
      ∧ Scope.binding? [inner, root] path = some (1, .value (.bool true))
      ∧ Scope.lookup [inner, root] path none = .ok (.bool false)
      ∧ Scope.consultations [inner, root] path = [.resolver path] :=
  ⟨by decide, rfl, rfl, rfl⟩

end Scope

end Groundplan
