import Groundplan.Proofs.Engine.Defects
import Groundplan.Proofs.Safety.Containment
import Groundplan.Proofs.Safety.Conversion

/-!
# Errors Are Contained in Their Nodes

With the standard library and well-formed expressions, only numbers can stop a run: a number that is
needed as text and cannot be written, a text that is needed as a number and cannot be read, an
infinite power, and an integer with too many digits.  Each of these defects escapes from one of the
declarations, from an expression of it, from the value that an input variable is given, or from the
value of a multiplicity.  Where none of them escapes from anything, every declaration is settled.

## Main Definitions

- `Declaration.IsWellFormed`: the expressions of a declaration are well formed
- `Engine.Escapes`: the defects that escape from a declaration by itself

## Main Statements

- `Engine.escapes_of_verdict`: a defect that a node comes to escapes from some declaration
- `Engine.run_contains_errors`: when a run succeeds, and what stops it otherwise
- `Engine.run_stops_at_text`: a number that cannot be written stops a run
-/

namespace Groundplan

/-- The expressions that a declaration owns are well formed. -/
def Declaration.IsWellFormed (declaration : Declaration) : Prop :=
  ∀ entry ∈ declaration.expressions, entry.2.IsWellFormed

/-- The defect concerns a number, and not the tree that was handed in. -/
def Defect.IsNumeric : Defect → Prop
  | .signal s => s = .overflow ∨ s = .invalidOperation
  | .notFinite _ | .tooManyDigits _ => True
  | .binaryOperator _ | .unaryOperator _ | .strayDirective _ | .truthValue => False

theorem Expr.Escapes.isNumeric {e : Expr} {d : Defect} (h : e.Escapes d) : d.IsNumeric := by
  rcases h with ⟨rfl, _⟩ | ⟨⟨_, rfl⟩, _⟩ | ⟨⟨_, rfl⟩, _⟩
  · exact .inl rfl
  · trivial
  · trivial

theorem Value.EscapesFromWithin.isNumeric {v : Value} {d : Defect} (h : v.EscapesFromWithin d) :
    d.IsNumeric := by
  obtain ⟨x, _, hresists⟩ := h
  cases x with
  | number n =>
    obtain ⟨_, rfl⟩ := hresists
    exact .inl rfl
  | string s =>
    obtain ⟨_, _, rfl⟩ := hresists
    exact .inr rfl
  | null | bool | list | set | map | object | unknown => cases hresists

theorem Engine.ofFault_eq_defect_iff {α : Type} {o : Outcome α} {d : Defect} :
    ofFault o = .error (.fault (.defect d)) ↔ o = .error (.defect d) := by
  rcases o with (e | d') | a <;> simp [ofFault, Except.mapError]

/-- A well-formed expression comes to its own defects only, if looking up comes to none. -/
theorem Expr.IsWellFormed.evaluate_raises {e : Expr} (h : e.IsWellFormed) {scope : Scope}
    (hscope : scope.Gives e.Escapes fun _ => True) :
    Raises e.Escapes (e.evaluate Library.standard scope) :=
  e.evaluate_yields hereditary_true h.admitted hscope

namespace Engine

/-- A defect escapes from a declaration when it is evaluated by the given results of others. -/
inductive Escapes (engine : Engine) (results : NodeId → Except Stop Value) (n : Graph.Node) :
    Defect → Prop where
  /-- From a construct of one of its expressions. -/
  | expression {role : String} {e : Expr} {d : Defect}
      (he : (role, e) ∈ n.declaration.expressions) (hd : e.Escapes d) : Escapes engine results n d
  /-- From the value that an input variable is given, when it is converted. -/
  | conversion {v : InputVariable} {constraint : Constraint} {given : Value} {d : Defect}
      (hv : n.declaration = .input v) (hconstraint : v.constraint = some constraint)
      (hgiven : (Table.get? engine.inputs v.name).or v.default = some given)
      (hd : given.convert constraint = .error (.defect d)) : Escapes engine results n d
  /-- From the value of a multiplicity, when instances are made of it. -/
  | multiplicity {r : Resource} {e : Expr} {source : Value} {d : Defect}
      (hr : n.declaration = .resource r) (he : r.multiplicity = some e)
      (hsource : e.evaluate engine.library (scopeOf results n.dependencies) = .ok source)
      (hd : Expansion.ofValue engine.settings.maxInstances r.address source e.span
        = .error (.defect d)) : Escapes engine results n d

section Declarations

variable {engine : Engine} {overlay : Overlay} {results : NodeId → Except Stop Value}
  {n : Graph.Node} {d : Defect}

/-- Only numbers escape from declarations. -/
theorem Escapes.isNumeric (h : engine.Escapes results n d) : d.IsNumeric := by
  cases h with
  | expression _ hd => exact hd.isNumeric
  | conversion _ _ _ hd => exact ((Value.convert_raises _ _).defect d hd).isNumeric
  | multiplicity _ _ _ hd =>
    rcases (Expansion.ofValue_raises _ _ _ _).defect d hd with hwithin | ⟨_, rfl⟩
    · exact hwithin.isNumeric
    · trivial

/-- Looking up what others have come to yields no defect: their failures are not seen. -/
theorem scopeOf_gives (D : Defect → Prop) (results : NodeId → Except Stop Value)
    (dependencies : List String) : (scopeOf results dependencies).Gives D fun _ => True := by
  intro path span
  unfold scopeOf
  rw [lookup_scopeSeeing]
  split
  · exact .ok trivial
  · exact .fail

section Expressions

variable (hlibrary : engine.library = Library.standard) (hwellFormed : n.declaration.IsWellFormed)

include hlibrary hwellFormed

/-- An expression of a declaration comes to defects that escape from the declaration. -/
theorem expression_raises {role : String} {e : Expr} (he : (role, e) ∈ n.declaration.expressions)
    {scope : Scope} (hscope : scope.Gives e.Escapes fun _ => True) :
    Raises (engine.Escapes results n) (e.evaluate engine.library scope) := by
  rw [hlibrary]
  exact ((hwellFormed (role, e) he).evaluate_raises hscope).mono (fun _ => .expression he)
    fun _ h => h

theorem checkValidations_raises {v : InputVariable} {scope : Scope} (rules : List Validation)
    (hrules : ∀ rule ∈ rules, ∃ role, (role, rule.condition) ∈ n.declaration.expressions)
    (hscope : ∀ D, scope.Gives D fun _ => True) :
    Raises (engine.Escapes results n) (checkValidations engine.library v scope rules) := by
  induction rules with
  | nil => exact .ok trivial
  | cons rule rules ih =>
    obtain ⟨hrule, hrest⟩ := List.forall_mem_cons.mp hrules
    obtain ⟨role, hrole⟩ := hrule
    unfold checkValidations
    refine (expression_raises hlibrary hwellFormed hrole (hscope _)).bind fun truth _ _ => ?_
    split
    · exact ih hrest
    · exact ih hrest
    · exact .fail
    · exact .fail

theorem inputValue_raises {v : InputVariable} (hv : n.declaration = .input v) :
    Raises (engine.Escapes results n)
      (engine.inputValue v (scopeOf results n.dependencies)) := by
  have hrules : ∀ rule ∈ v.validations,
      ∃ role, (role, rule.condition) ∈ n.declaration.expressions := by
    intro rule hrule
    rw [hv]
    exact exists_expression_of_mem_validations hrule
  -- Once there is a value, only the conditions on it are left.
  have hchecked : ∀ value, Raises (engine.Escapes results n) (do
      checkValidations engine.library v
        ((scopeOf results n.dependencies).child [((Declaration.input v).symbol, value)])
        v.validations
      return value) := by
    intro value
    have hscope : ∀ D, Scope.Gives D (fun _ => True)
        ((scopeOf results n.dependencies).child [((Declaration.input v).symbol, value)]) :=
      fun D => (scopeOf_gives D results n.dependencies).child fun _ _ => trivial
    exact (checkValidations_raises hlibrary hwellFormed v.validations hrules hscope).bind
      fun _ _ _ => .pure trivial
  unfold inputValue
  cases hgiven : (Table.get? engine.inputs v.name).or v.default with
  | none => exact .fail_bind
  | some given =>
    cases hconstraint : v.constraint with
    | none => exact hchecked given
    | some constraint =>
      have hconverted : Raises (engine.Escapes results n) (given.convert constraint) :=
        ⟨fun _ _ => trivial, fun _ => .conversion hv hconstraint hgiven⟩
      exact hconverted.bind fun value _ _ => hchecked value

theorem argumentValues_raises {scope : Scope} (arguments : List (String × Expr))
    (harguments : ∀ entry ∈ arguments, entry ∈ n.declaration.expressions)
    (hscope : ∀ D, scope.Gives D fun _ => True) :
    Raises (engine.Escapes results n) (argumentValues engine.library scope arguments) := by
  induction arguments with
  | nil => exact .ok trivial
  | cons entry rest ih =>
    obtain ⟨name, e⟩ := entry
    obtain ⟨hentry, hrest⟩ := List.forall_mem_cons.mp harguments
    unfold argumentValues
    refine (expression_raises hlibrary hwellFormed hentry (hscope _)).bind fun _ _ _ => ?_
    exact (ih hrest).bind fun _ _ _ => .pure trivial

theorem expansionOf_raises {r : Resource} (hr : n.declaration = .resource r) :
    Raises (engine.Escapes results n) (engine.expansionOf results n r) := by
  unfold expansionOf
  cases hmultiplicity : r.multiplicity with
  | none => exact .ok trivial
  | some e =>
    have howned : ("multiplicity", e) ∈ n.declaration.expressions := by
      rw [hr]
      simp [Declaration.expressions, hmultiplicity]
    have hsource : Raises (engine.Escapes results n)
        (e.evaluate engine.library (scopeOf results n.dependencies)) :=
      expression_raises hlibrary hwellFormed howned (scopeOf_gives _ results n.dependencies)
    have hmade : ∀ source,
        e.evaluate engine.library (scopeOf results n.dependencies) = .ok source →
        Raises (engine.Escapes results n) (Expansion.of engine.settings.maxInstances r source) := by
      intro source hsource
      unfold Expansion.of
      rw [hmultiplicity]
      exact ⟨fun _ _ => trivial, fun _ => .multiplicity hr hmultiplicity hsource⟩
    rw [Option.mapM_some]
    cases hevaluated : e.evaluate engine.library (scopeOf results n.dependencies) with
    | ok source => exact hmade source hevaluated
    | error fault =>
      rcases fault with error | d
      · exact .ofError
      · exact .ofDefect (hsource.defect d hevaluated)

/-- What is made of an instance comes to a defect only in one of its arguments. -/
theorem instanceResult_escapes {r : Resource} (hr : n.declaration = .resource r) {node : NodeId}
    {e : Expansion}
    (h : engine.instanceResult overlay results n r node e = .error (.fault (.defect d))) :
    engine.Escapes results n d := by
  have harguments : ∀ entry ∈ r.arguments, entry ∈ n.declaration.expressions := by
    intro entry hentry
    rw [hr]
    exact List.mem_append_right _ hentry
  have hscope : ∀ D, Scope.Gives D (fun _ => True)
      ((scopeOf results n.dependencies).child (e.bindingsFor node.key)) :=
    fun D => (scopeOf_gives D results n.dependencies).child fun _ _ => trivial
  unfold instanceResult at h
  split at h
  · cases h
  · rcases bind_eq_error_iff.mp h with h | ⟨_, _, h⟩
    · exact (argumentValues_raises hlibrary hwellFormed r.arguments harguments hscope).defect d
        (ofFault_eq_defect_iff.mp h)
    · cases h

/-- A template comes to a defect of its own, or to that of an instance. -/
theorem templateResult_escapes {r : Resource} (hr : n.declaration = .resource r)
    (hmultiple : r.multiplicity.isSome = true)
    (h : engine.templateResult results n r = .error (.fault (.defect d))) :
    engine.Escapes results n d
      ∨ ∃ key : InstanceKey, results ⟨r.address, some key⟩ = .error (.fault (.defect d)) := by
  have hraises : Raises (engine.Escapes results n) (engine.expansionOf results n r) :=
    expansionOf_raises hlibrary hwellFormed hr
  unfold templateResult at h
  rcases bind_eq_error_iff.mp h with h | ⟨e, he, h⟩
  · exact .inl (hraises.defect d (ofFault_eq_defect_iff.mp h))
  · cases hdeferred : e.isDeferred with
    | true =>
      rw [hdeferred] at h
      cases h
    | false =>
      rw [hdeferred] at h
      rcases bind_eq_error_iff.mp h with h | ⟨_, _, h⟩
      · -- All instances of a template have keys.
        obtain ⟨m, hm, hdefect⟩ := exists_fault_of_requireAll h
        obtain ⟨key, hkey, rfl⟩ := List.mem_map.mp hm
        obtain ⟨_, hkeys⟩ := keys_of_expansionOf hmultiple (ofFault_eq_ok_iff.mp he)
        obtain ⟨key, rfl⟩ := Option.isSome_iff_exists.mp (hkeys key hkey)
        exact .inr ⟨key, hdefect⟩
      · cases h

/-- Once its dependencies have values, a declaration comes to a defect of its own, or a template
comes to that of an instance. -/
theorem declarationResult_escapes {node : NodeId}
    (hn : engine.graph.node? node.address = some n)
    (h : engine.declarationResult overlay results n node = .error (.fault (.defect d))) :
    engine.Escapes results n d
      ∨ node.key = none ∧ ∃ key : InstanceKey,
          results ⟨node.address, some key⟩ = .error (.fault (.defect d)) := by
  unfold declarationResult at h
  cases hdeclaration : n.declaration with
  | input v =>
    rw [hdeclaration] at h
    exact .inl ((inputValue_raises hlibrary hwellFormed hdeclaration).defect d
      (ofFault_eq_defect_iff.mp h))
  | localValue v | output v =>
    rw [hdeclaration] at h
    have howned : ("value", v.expression) ∈ n.declaration.expressions := by
      rw [hdeclaration]
      exact List.mem_singleton_self _
    have hraises : Raises (engine.Escapes results n)
        (v.expression.evaluate engine.library (scopeOf results n.dependencies)) :=
      expression_raises hlibrary hwellFormed howned (scopeOf_gives _ results n.dependencies)
    exact .inl (hraises.defect d (ofFault_eq_defect_iff.mp h))
  | resource r =>
    rw [hdeclaration] at h
    dsimp only at h
    have hraises : Raises (engine.Escapes results n) (engine.expansionOf results n r) :=
      expansionOf_raises hlibrary hwellFormed hdeclaration
    split at h
    · next htemplate =>
      obtain ⟨hkey, hmultiple⟩ := Bool.and_eq_true_iff.mp htemplate
      rcases templateResult_escapes hlibrary hwellFormed hdeclaration hmultiple h with hown | hkeyed
      · exact .inl hown
      · refine .inr ⟨by simpa using hkey, ?_⟩
        rw [address_of_resource hn hdeclaration]
        exact hkeyed
    · rcases bind_eq_error_iff.mp h with h | ⟨e, _, h⟩
      · exact .inl (hraises.defect d (ofFault_eq_defect_iff.mp h))
      · exact .inl (instanceResult_escapes hlibrary hwellFormed hdeclaration h)

end Expressions

/-- **A defect that a node comes to escapes from some declaration**: from its own, from one that it
depends on, or from that of an instance. -/
theorem escapes_of_verdict (hgraph : engine.graph.Acyclic)
    (hlibrary : engine.library = Library.standard)
    (hwellFormed : ∀ n ∈ engine.graph.nodes, n.declaration.IsWellFormed) {node : NodeId}
    (h : engine.verdict overlay node = .error (.fault (.defect d))) :
    ∃ n ∈ engine.graph.nodes, engine.Escapes (engine.verdict overlay) n d := by
  induction hheight : engine.height node using Nat.strong_induction_on generalizing node with
  | _ height ih =>
    subst hheight
    obtain ⟨n, hn, _, ⟨a, ha, hdefect⟩ | ⟨_, hresult⟩⟩ :=
      evaluationOf_defect_cases ((verdict_eq_defect_iff hgraph).mp h)
    · have hrefers := Graph.refers_iff.mpr ⟨n, hn, ha⟩
      exact ih _ (height_ofAddress_lt hgraph hrefers) hdefect rfl
    · have hmem := (Graph.mem_of_node? hn).1
      rcases declarationResult_escapes hlibrary (hwellFormed n hmem) hn hresult with
        hown | ⟨hkey, key, hdefect⟩
      · exact ⟨n, hmem, hown⟩
      · exact ih _ (height_instance_lt hkey key) hdefect rfl

end Declarations

/-! ## Main statement -/

/-- **Errors are contained in their nodes.**  With the standard library and well-formed expressions,
a run without a limit on failures, after any calls, succeeds unless a declaration comes to a defect.
Then every declaration is resolved, failed or skipped, and an error that the evaluation of one meets
is the failure of that one.  What stops a run otherwise is a defect of a number, and it escapes from
a construct, a given value or a multiplicity of one of the declarations; if none escapes from any of
them, the run succeeds. -/
theorem run_contains_errors {settings : Settings} {declarations : List Declaration}
    {inputs : Table String Plain} {engine : Engine}
    (hengine : Engine.ofDeclarations Library.standard settings declarations inputs = .ok engine)
    (hwellFormed : ∀ declaration ∈ declarations, declaration.IsWellFormed)
    (hcheck : engine.graph.checkAcyclic = .ok ()) (hunlimited : engine.settings.maxErrors = 0)
    (calls : List Call) :
    let s := engine.afterAll calls
    ((∃ report s', runFrom s engine.run = (.ok report, s'))
        ↔ ∀ a ∈ engine.graph.addresses, ∀ d, ¬ MeetsDefect engine s.applied a d)
      ∧ (∀ report s', runFrom s engine.run = (.ok report, s') →
          ∀ a ∈ engine.graph.addresses,
            (s'.status (.ofAddress a) = .resolved ∨ s'.status (.ofAddress a) = .failed
                ∨ s'.status (.ofAddress a) = .skipped)
              ∧ ∀ e, engine.evaluationOf s.applied (engine.verdict s.applied) (.ofAddress a)
                  = .error (.fault (.error e)) →
                Table.get? s'.settled (.ofAddress a)
                  = some (.failure (.own (.ofAddress a) e)))
      ∧ (∀ stop s', runFrom s engine.run = (.error stop, s') →
          ∃ d, stop = .fault (.defect d) ∧ d.IsNumeric
            ∧ ∃ n ∈ engine.graph.nodes, engine.Escapes (engine.verdict s.applied) n d)
      ∧ ((∀ n ∈ engine.graph.nodes, ∀ d, ¬ engine.Escapes (engine.verdict s.applied) n d) →
          ∃ report s', runFrom s engine.run = (.ok report, s')) := by
  intro s
  have hgraph := acyclic_of_ofDeclarations hengine hcheck
  obtain ⟨hlibrary, hdeclared⟩ := declared_of_ofDeclarations hengine
  obtain ⟨hiff, hsettled, hstops⟩ := run_succeeds_iff hengine hcheck hunlimited calls
  have horigin : ∀ a d, MeetsDefect engine s.applied a d →
      ∃ n ∈ engine.graph.nodes, engine.Escapes (engine.verdict s.applied) n d :=
    fun a d => escapes_of_verdict hgraph hlibrary
      fun n hn => hwellFormed n.declaration (hdeclared n hn)
  refine ⟨hiff, fun report s' hrun a ha => ?_, fun stop s' hrun => ?_, fun hnone => ?_⟩
  · obtain ⟨hvisited, hown⟩ := hsettled report s' hrun a ha
    refine ⟨?_, hown⟩
    cases hstatus : s'.status (.ofAddress a) with
    | unvisited => exact absurd hstatus hvisited
    | resolved => exact .inl rfl
    | failed => exact .inr (.inl rfl)
    | skipped => exact .inr (.inr rfl)
  · obtain ⟨a, _, d, hdefect, hstop⟩ := hstops stop s' hrun
    obtain ⟨n, hn, hescapes⟩ := horigin a d hdefect
    exact ⟨d, hstop, hescapes.isNumeric, n, hn, hescapes⟩
  · refine hiff.mpr fun a _ d hdefect => ?_
    obtain ⟨n, hn, hescapes⟩ := horigin a d hdefect
    exact hnone n hn d hescapes

/-- A product that is too great is the failure of its declaration, and the run succeeds. -/
theorem run_contains_errors_product :
    let bad : Declaration := .localValue ⟨"bad",
      .binary none .mul (.literal none (.number ⟨false, 9, 999999⟩)) (.literal none (.ofNat 10)),
      none⟩
    ∃ engine report s',
      Engine.ofDeclarations Library.standard Settings.standard [bad] [] = .ok engine
        ∧ bad.IsWellFormed ∧ engine.graph.checkAcyclic = .ok () ∧ engine.settings.maxErrors = 0
        ∧ runFrom .initial engine.run = (.ok report, s')
        ∧ Table.get? s'.settled (.ofAddress "local.bad")
            = some (.failure (.own (.ofAddress "local.bad")
              ⟨.arithmetic "*" "Overflow", none, []⟩)) := by
  intro bad
  let engine : Engine := ⟨⟨[⟨bad, [], []⟩]⟩, Library.standard, Settings.standard, []⟩
  have hengine : Engine.ofDeclarations Library.standard Settings.standard [bad] []
      = .ok engine := by
    cbv
  have hcheck : engine.graph.checkAcyclic = .ok () := by
    cbv
  have hwellFormed : bad.IsWellFormed := by
    simp [bad, Declaration.IsWellFormed, Declaration.expressions, Expr.IsWellFormed,
      Expr.subexpressions, Expr.isProper, Operator.isUnary]
  have hcontained : ∀ n ∈ engine.graph.nodes, ∀ d,
      ¬ engine.Escapes (engine.verdict (engine.afterAll []).applied) n d := by
    rintro n hn d hescapes
    obtain rfl := List.mem_singleton.mp hn
    cases hescapes with
    | expression he hd =>
      cases List.mem_singleton.mp he
      refine Expr.IsContained.not_escapes ⟨?_, ?_⟩ d hd
      · simp [Expr.subexpressions, Expr.writes]
      · simp [Expr.HasCall, Expr.subexpressions]
    | conversion hv => cases hv
    | multiplicity hr => cases hr
  obtain ⟨_, hsettled, _, hsucceeds⟩ := run_contains_errors hengine
    (List.forall_mem_singleton.mpr hwellFormed) hcheck rfl []
  obtain ⟨report, s', hrun⟩ := hsucceeds hcontained
  refine ⟨engine, report, s', hengine, hwellFormed, hcheck, rfl, hrun, ?_⟩
  apply (hsettled report s' hrun "local.bad" List.mem_cons_self).2
  cbv

/-- A text with a number that cannot be written stops a run, and its declaration is not settled. -/
theorem run_stops_at_text :
    let bad : Declaration := .localValue ⟨"bad",
      .template none [.text "x", .interpolation (.literal none (.number ⟨false, 1, 1000000⟩))], none⟩
    let good : Declaration := .localValue ⟨"ok", .literal none (.ofNat 1), none⟩
    ∃ engine s', Engine.ofDeclarations Library.standard Settings.standard [bad, good] []
        = .ok engine
      ∧ (∀ declaration ∈ [bad, good], declaration.IsWellFormed)
      ∧ engine.graph.checkAcyclic = .ok () ∧ engine.settings.maxErrors = 0
      ∧ runFrom .initial engine.run = (.error (.fault (.defect (.signal .overflow))), s')
      ∧ s'.status (.ofAddress "local.bad") = .unvisited := by
  intro bad good
  let engine : Engine := ⟨⟨[⟨bad, [], []⟩, ⟨good, [], []⟩]⟩, Library.standard, Settings.standard, []⟩
  have hwellFormed : ∀ declaration ∈ [bad, good], declaration.IsWellFormed := by
    simp [bad, good, Declaration.IsWellFormed, Declaration.expressions, Expr.IsWellFormed,
      Expr.subexpressions, subexpressionsOfParts, Expr.isProper]
  have hrun : (runFrom .initial engine.run).1 = .error (.fault (.defect (.signal .overflow))) := by
    cbv
  refine ⟨engine, (runFrom .initial engine.run).2, ?_, hwellFormed, ?_, rfl, Prod.ext hrun rfl, ?_⟩
  · cbv
  · cbv
  · cbv

end Engine

end Groundplan
