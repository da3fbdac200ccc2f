import Groundplan.Proofs.Evaluation

/-!
# Evaluation Reads Only What an Expression Mentions

Two scopes that give the same answer for every symbol an expression mentions are
interchangeable for its evaluation, also where evaluation fails and where calls of
`try` and `can` absorb failures.  Evaluation looks symbols up in scopes that bind
names of comprehensions, directives and splats; such a frame hides the same symbols
on both sides, so the agreement of the outer scopes carries over to the inner ones.
-/

namespace Groundplan

/-! ## Agreement of scopes -/

/-- Two scopes agree on some symbols: look-ups give the same value or the same fault. -/
def Scope.AgreeOn (paths : List SymbolPath) (s t : Scope) : Prop :=
  ∀ path ∈ paths, ∀ span, s.lookup path span = t.lookup path span

namespace Scope.AgreeOn

variable {paths others : List SymbolPath} {s t : Scope}

theorem mono (h : AgreeOn paths s t) (hsub : ∀ path ∈ others, path ∈ paths) :
    AgreeOn others s t :=
  fun path hpath span => h path (hsub path hpath) span

theorem left (h : AgreeOn (paths ++ others) s t) : AgreeOn paths s t :=
  h.mono fun _ hpath => List.mem_append_left others hpath

theorem right (h : AgreeOn (paths ++ others) s t) : AgreeOn others s t :=
  h.mono fun _ hpath => List.mem_append_right paths hpath

/-- A frame of values hides the same symbols on both sides. -/
theorem child (h : AgreeOn paths s t) (bindings : List (SymbolPath × Value)) :
    AgreeOn paths (s.child bindings) (t.child bindings) := by
  intro path hpath span
  cases hbound : Table.get? (Table.ofList bindings) path with
  | none =>
    rw [lookup_child_of_unbound s span hbound, lookup_child_of_unbound t span hbound]
    exact h path hpath span
  | some v =>
    rw [lookup_child_of_bound s span hbound, lookup_child_of_bound t span hbound]

theorem iteration (h : AgreeOn paths s t) (keyName : Option String) (valueName : String)
    (key value : Value) :
    AgreeOn paths (iterationScope s keyName valueName key value)
      (iterationScope t keyName valueName key value) :=
  h.child _

end Scope.AgreeOn

/-! ## Evaluation -/

/-- What a comprehension mentions, part by part. -/
theorem references_comprehension (span : Option Span) (collection : Expr)
    (keyName : Option String) (valueName : String) (filter key : Option Expr) (value : Expr)
    (grouping : Bool) :
    (Expr.comprehension span collection keyName valueName filter key value grouping).references
      = collection.references ++ value.references ++ key.elim [] Expr.references
        ++ filter.elim [] Expr.references := by
  cases filter <;> cases key <;> simp [Expr.references]

mutual

/-- Evaluation depends on the answers for the mentioned symbols alone. -/
theorem Expr.evaluate_congr (library : Library) (e : Expr) {s t : Scope}
    (h : Scope.AgreeOn e.references s t) : e.evaluate library s = e.evaluate library t := by
  match e with
  | .literal _ _ => simp only [Expr.evaluate]
  | .ref span path =>
    simp only [Expr.evaluate]
    exact h path (by simp [Expr.references]) span
  | .index _ collection key =>
    simp only [Expr.references] at h
    simp only [Expr.evaluate, Expr.evaluate_congr library collection h.left,
      Expr.evaluate_congr library key h.right]
  | .access _ target _ =>
    simp only [Expr.references] at h
    simp only [Expr.evaluate, Expr.evaluate_congr library target h]
  | .call span function arguments =>
    simp only [Expr.references] at h
    -- Most functions evaluate all arguments; `try` stops at the first one that does not fail, and
    -- `can` has a single one.
    have hall := evaluateAll_congr library arguments h
    have hfirst := evaluateFirst_congr library span arguments [] h
    match arguments with
    | [] | _ :: _ :: _ => simp only [Expr.evaluate, hall, hfirst]
    | [argument] =>
      simp only [referencesOfAll] at h
      simp only [Expr.evaluate, hall, hfirst, Expr.evaluate_congr library argument h.left]
  | .conditional _ condition whenTrue whenFalse =>
    simp only [Expr.references] at h
    simp only [Expr.evaluate, Expr.evaluate_congr library condition h.left.left,
      Expr.evaluate_congr library whenTrue h.left.right,
      Expr.evaluate_congr library whenFalse h.right]
  | .binary _ _ left right =>
    simp only [Expr.references] at h
    simp only [Expr.evaluate, Expr.evaluate_congr library left h.left,
      Expr.evaluate_congr library right h.right]
  | .unary _ _ operand =>
    simp only [Expr.references] at h
    simp only [Expr.evaluate, Expr.evaluate_congr library operand h]
  | .list _ items =>
    simp only [Expr.references] at h
    simp only [Expr.evaluate, evaluateAll_congr library items h]
  | .object span items =>
    simp only [Expr.references] at h
    simp only [Expr.evaluate, evaluateFields_congr library span items false [] h]
  | .comprehension span collection keyName valueName filter key value grouping =>
    rw [references_comprehension] at h
    -- Every turn binds the same pair on both sides, in front of scopes that agree.
    have hfilter : ∀ pair : Value × Value, keepsElement library span filter
        (iterationScope s keyName valueName pair.1 pair.2)
          = keepsElement library span filter
            (iterationScope t keyName valueName pair.1 pair.2) := by
      intro pair
      match filter with
      | none => rfl
      | some filter =>
        simp only [keepsElement, Expr.evaluate_congr library filter
          (h.right.iteration keyName valueName pair.1 pair.2)]
    have hvalue := fun pair : Value × Value =>
      Expr.evaluate_congr library value
        (h.left.left.right.iteration keyName valueName pair.1 pair.2)
    have hturn : ∀ pair : Value × Value, contribution library span key value
        (iterationScope s keyName valueName pair.1 pair.2)
          = contribution library span key value
            (iterationScope t keyName valueName pair.1 pair.2) := by
      intro pair
      match key with
      | none => simp only [contribution, hvalue]
      | some key =>
        simp only [contribution, hvalue, Expr.evaluate_congr library key
          (h.left.right.iteration keyName valueName pair.1 pair.2)]
    simp only [evaluate_comprehension, elementTurn, hfilter, hturn,
      Expr.evaluate_congr library collection h.left.left.left]
  | .splat span source path =>
    simp only [Expr.references] at h
    -- The steps see the element of a turn under a name that no identifier spells.
    have hsteps := fun item : Value =>
      evaluateSteps_congr library span path item
        (h.right.child [(SymbolPath.splatItem, item)])
    simp only [Expr.evaluate, Expr.evaluate_congr library source h.left, hsteps]
  | .template span parts =>
    simp only [Expr.references] at h
    simp only [Expr.evaluate, evaluateParts_congr library span parts h]
  | .stray _ => simp only [Expr.evaluate]

theorem evaluateAll_congr (library : Library) (es : List Expr) {s t : Scope}
    (h : Scope.AgreeOn (referencesOfAll es) s t) :
    evaluateAll library es s = evaluateAll library es t := by
  match es with
  | [] => simp only [evaluateAll]
  | e :: es =>
    simp only [referencesOfAll] at h
    simp only [evaluateAll, Expr.evaluate_congr library e h.left,
      evaluateAll_congr library es h.right]

theorem evaluateFirst_congr (library : Library) (span : Option Span) (es : List Expr)
    (failures : List Diagnostic) {s t : Scope} (h : Scope.AgreeOn (referencesOfAll es) s t) :
    evaluateFirst library span es failures s = evaluateFirst library span es failures t := by
  match es with
  | [] => simp only [evaluateFirst]
  | e :: es =>
    simp only [referencesOfAll] at h
    have hrest := fun later => evaluateFirst_congr library span es later h.right
    simp only [evaluateFirst, Expr.evaluate_congr library e h.left, hrest]

theorem evaluateFields_congr (library : Library) (span : Option Span)
    (items : List (Expr × Expr)) (undecided : Bool) (earlier : Table String Value)
    {s t : Scope} (h : Scope.AgreeOn (referencesOfPairs items) s t) :
    evaluateFields library span items undecided earlier s
      = evaluateFields library span items undecided earlier t := by
  match items with
  | [] => simp only [evaluateFields]
  | (key, value) :: rest =>
    simp only [referencesOfPairs] at h
    have hrest := fun undecided earlier =>
      evaluateFields_congr library span rest undecided earlier h.right
    simp only [evaluateFields, Expr.evaluate_congr library key h.left.left,
      Expr.evaluate_congr library value h.left.right, hrest]

theorem evaluateSteps_congr (library : Library) (span : Option Span) (path : List Step)
    (v : Value) {s t : Scope} (h : Scope.AgreeOn (referencesOfSteps path) s t) :
    evaluateSteps library span path v s = evaluateSteps library span path v t := by
  match path with
  | [] => simp only [evaluateSteps]
  | .access _ :: rest =>
    simp only [referencesOfSteps] at h
    have hrest := fun v => evaluateSteps_congr library span rest v h
    simp only [evaluateSteps, hrest]
  | .index key :: rest =>
    simp only [referencesOfSteps] at h
    have hrest := fun v => evaluateSteps_congr library span rest v h.right
    simp only [evaluateSteps, Expr.evaluate_congr library key h.left, hrest]

theorem evaluateParts_congr (library : Library) (span : Option Span) (parts : List Part)
    {s t : Scope} (h : Scope.AgreeOn (referencesOfParts parts) s t) :
    evaluateParts library span parts s = evaluateParts library span parts t := by
  match parts with
  | [] => simp only [evaluateParts]
  | .text _ :: rest =>
    simp only [referencesOfParts] at h
    simp only [evaluateParts, evaluateParts_congr library span rest h]
  | .interpolation expression :: rest =>
    simp only [referencesOfParts] at h
    simp only [evaluateParts, Expr.evaluate_congr library expression h.left,
      evaluateParts_congr library span rest h.right]
  | .directive directive :: rest =>
    simp only [referencesOfParts] at h
    simp only [evaluateParts, Directive.evaluate_congr library directive h.left,
      evaluateParts_congr library span rest h.right]

theorem Directive.evaluate_congr (library : Library) (directive : Directive) {s t : Scope}
    (h : Scope.AgreeOn directive.references s t) :
    directive.evaluate library s = directive.evaluate library t := by
  match directive with
  | .ifElse span condition thenParts elseParts =>
    simp only [Directive.references] at h
    simp only [Directive.evaluate, Expr.evaluate_congr library condition h.left.left,
      evaluateParts_congr library span thenParts h.left.right,
      evaluateParts_congr library span elseParts h.right]
  | .forEach span collection keyName valueName body =>
    simp only [Directive.references] at h
    have hbody := fun pair : Value × Value =>
      evaluateParts_congr library span body
        (h.right.iteration keyName valueName pair.1 pair.2)
    simp only [Directive.evaluate, Expr.evaluate_congr library collection h.left, hbody]

end

/-! ## Main statement -/

/-- **References bound what evaluation reads.**  Scopes whose look-ups agree on every symbol
that an expression mentions evaluate it to the same value or to the same fault. -/
theorem evaluate_eq_of_lookups_agree (library : Library) (e : Expr) {s t : Scope}
    (hagree : ∀ path ∈ e.references, ∀ span, s.lookup path span = t.lookup path span) :
    e.evaluate library s = e.evaluate library t :=
  e.evaluate_congr library hagree

/-- `try([for x in xs : x[local.i]], y)`, where `local.j` is bound on one side only and both
sides lack `y`. -/
theorem evaluate_try_comprehension_eq :
    let x := SymbolPath.bound "x"
    let i : SymbolPath := ⟨.localName, "i"⟩
    let j : SymbolPath := ⟨.localName, "j"⟩
    let xs := SymbolPath.bound "xs"
    let items : Value := .list [.list [.bool true], .list []]
    let s : Scope := Scope.child [] [(xs, items), (i, .ofNat 0)]
    let t : Scope := Scope.child (Scope.child [] [(i, .ofNat 0), (j, .null)]) [(xs, items)]
    let body : Expr := .index none (.ref none x) (.ref none i)
    let e : Expr := .call none "try"
      [.comprehension none (.ref none xs) none "x" none none body false,
        .ref none (.bound "y")]
    s.lookup j none ≠ t.lookup j none
      ∧ e.evaluate Library.standard s = e.evaluate Library.standard t := by
  intro x i j xs items s t body e
  constructor
  · intro h
    cases h
  · apply evaluate_eq_of_lookups_agree
    intro path hpath span
    simp only [e, body, x, i, xs, Expr.references, referencesOfAll, List.append_nil,
      List.cons_append, List.nil_append, List.mem_cons, List.not_mem_nil, or_false] at hpath
    rcases hpath with rfl | rfl | rfl | rfl <;> rfl

end Groundplan
