import Groundplan.Proofs.Equality.Operation
import Groundplan.Proofs.Evaluation
import Groundplan.Proofs.Library.Split
import Groundplan.Proofs.Safety.WellFormed

/-!
# Directives Are Ordinary Expressions

The directives of a template can be written as ordinary expressions: one that chooses between two
texts is the interpolation of a conditional, and one that repeats a text is the interpolation of the
joined list of a comprehension.  A template means the same with or without directives, also where a
part of it is unknown or fails: directives collect a text that may not be known, expressions collect
values of which some may be unknown, and both go through all parts in the same order.

## Main Definitions

- `Expr.withoutDirectives`: all directives of templates written as expressions
- `Expr.hasDirective`: whether a template has a directive, at any depth
- `templateValue`: the value of a text that may not be known
- `Expr.Matches`: two expressions that agree in a scope

## Main Statements

- `call_join`: texts of which one may not be known, joined
- `Expr.withoutDirectives_agrees`: the simulation
- `template_agrees_withoutDirectives`
-/

namespace Groundplan

/-! ## The rewriting -/

mutual

/-- The expression with all directives of templates, at every depth, written as expressions. -/
def Expr.withoutDirectives : Expr → Expr
  | .literal span value => .literal span value
  | .ref span path => .ref span path
  | .index span collection key => .index span collection.withoutDirectives key.withoutDirectives
  | .access span target name => .access span target.withoutDirectives name
  | .call span function arguments => .call span function (withoutDirectivesInAll arguments)
  | .conditional span condition whenTrue whenFalse =>
    .conditional span condition.withoutDirectives whenTrue.withoutDirectives
      whenFalse.withoutDirectives
  | .binary span operator left right =>
    .binary span operator left.withoutDirectives right.withoutDirectives
  | .unary span operator operand => .unary span operator operand.withoutDirectives
  | .list span items => .list span (withoutDirectivesInAll items)
  | .object span items => .object span (withoutDirectivesInPairs items)
  | .comprehension span collection keyName valueName filter key value grouping =>
    .comprehension span collection.withoutDirectives keyName valueName
      (match filter with
        | some filter => some filter.withoutDirectives
        | none => none)
      (match key with
        | some key => some key.withoutDirectives
        | none => none)
      value.withoutDirectives grouping
  | .splat span source path =>
    .splat span source.withoutDirectives (withoutDirectivesInSteps path)
  | .template span parts => .template span (withoutDirectivesInParts parts)
  | .stray directive => .stray directive

/-- The same for some expressions. -/
def withoutDirectivesInAll : List Expr → List Expr
  | [] => []
  | e :: es => e.withoutDirectives :: withoutDirectivesInAll es

/-- The same for keys and values. -/
def withoutDirectivesInPairs : List (Expr × Expr) → List (Expr × Expr)
  | [] => []
  | (key, value) :: rest =>
    (key.withoutDirectives, value.withoutDirectives) :: withoutDirectivesInPairs rest

/-- The same for the steps of a splat. -/
def withoutDirectivesInSteps : List Step → List Step
  | [] => []
  | .access name :: rest => .access name :: withoutDirectivesInSteps rest
  | .index key :: rest => .index key.withoutDirectives :: withoutDirectivesInSteps rest

/-- The same for parts of a template, of which directives are interpolated as expressions. -/
def withoutDirectivesInParts : List Part → List Part
  | [] => []
  | .text s :: rest => .text s :: withoutDirectivesInParts rest
  | .interpolation expression :: rest =>
    .interpolation expression.withoutDirectives :: withoutDirectivesInParts rest
  | .directive directive :: rest =>
    .interpolation directive.toExpr :: withoutDirectivesInParts rest

/-- The expression that a directive stands for: the conditional of two templates, or the joined list
of a template for each element. -/
def Directive.toExpr : Directive → Expr
  | .ifElse span condition thenParts elseParts =>
    .conditional span condition.withoutDirectives
      (.template span (withoutDirectivesInParts thenParts))
      (.template span (withoutDirectivesInParts elseParts))
  | .forEach span collection keyName valueName body =>
    .call span "join" [.literal span (.string ""),
      .comprehension span collection.withoutDirectives keyName valueName none none
        (.template span (withoutDirectivesInParts body)) false]

end

mutual

/-- Whether a template has a directive, at any depth of an expression. -/
def Expr.hasDirective : Expr → Bool
  | .literal .. | .ref .. | .stray _ => false
  | .index _ collection key => collection.hasDirective || key.hasDirective
  | .access _ target _ => target.hasDirective
  | .call _ _ arguments => anyHasDirective arguments
  | .conditional _ condition whenTrue whenFalse =>
    condition.hasDirective || whenTrue.hasDirective || whenFalse.hasDirective
  | .binary _ _ left right => left.hasDirective || right.hasDirective
  | .unary _ _ operand => operand.hasDirective
  | .list _ items => anyHasDirective items
  | .object _ items => anyPairHasDirective items
  | .comprehension _ collection _ _ filter key value _ =>
    collection.hasDirective || value.hasDirective
      || (match key with
        | some key => key.hasDirective
        | none => false)
      || (match filter with
        | some filter => filter.hasDirective
        | none => false)
  | .splat _ source path => source.hasDirective || anyStepHasDirective path
  | .template _ parts => anyPartHasDirective parts

/-- Whether one of some expressions has a directive. -/
def anyHasDirective : List Expr → Bool
  | [] => false
  | e :: es => e.hasDirective || anyHasDirective es

/-- Whether a key or value has a directive. -/
def anyPairHasDirective : List (Expr × Expr) → Bool
  | [] => false
  | (key, value) :: rest => key.hasDirective || value.hasDirective || anyPairHasDirective rest

/-- Whether a step of a splat has a directive. -/
def anyStepHasDirective : List Step → Bool
  | [] => false
  | .access _ :: rest => anyStepHasDirective rest
  | .index key :: rest => key.hasDirective || anyStepHasDirective rest

/-- Whether a part of a template is a directive or has one. -/
def anyPartHasDirective : List Part → Bool
  | [] => false
  | .text _ :: rest => anyPartHasDirective rest
  | .interpolation expression :: rest => expression.hasDirective || anyPartHasDirective rest
  | .directive _ :: _ => true

end

theorem withoutDirectives_comprehension (span : Option Span) (collection : Expr)
    (keyName : Option String) (valueName : String) (filter key : Option Expr) (value : Expr)
    (grouping : Bool) :
    (Expr.comprehension span collection keyName valueName filter key value
        grouping).withoutDirectives
      = .comprehension span collection.withoutDirectives keyName valueName
          (filter.map Expr.withoutDirectives) (key.map Expr.withoutDirectives)
          value.withoutDirectives grouping := by
  cases filter <;> cases key <;> rfl

theorem hasDirective_comprehension (span : Option Span) (collection : Expr)
    (keyName : Option String) (valueName : String) (filter key : Option Expr) (value : Expr)
    (grouping : Bool) :
    (Expr.comprehension span collection keyName valueName filter key value grouping).hasDirective
      = (collection.hasDirective || value.hasDirective || key.any Expr.hasDirective
          || filter.any Expr.hasDirective) := by
  cases filter <;> cases key <;> rfl

mutual

/-- No directive of a template is left. -/
theorem Expr.hasDirective_withoutDirectives (e : Expr) :
    e.withoutDirectives.hasDirective = false := by
  match e with
  | .literal .. | .ref .. | .stray _ => simp [Expr.withoutDirectives, Expr.hasDirective]
  | .index _ collection key =>
    simp [Expr.withoutDirectives, Expr.hasDirective, collection.hasDirective_withoutDirectives,
      key.hasDirective_withoutDirectives]
  | .access _ target _ =>
    simp [Expr.withoutDirectives, Expr.hasDirective, target.hasDirective_withoutDirectives]
  | .call _ _ arguments =>
    simp [Expr.withoutDirectives, Expr.hasDirective, anyHasDirective_without arguments]
  | .conditional _ condition whenTrue whenFalse =>
    simp [Expr.withoutDirectives, Expr.hasDirective, condition.hasDirective_withoutDirectives,
      whenTrue.hasDirective_withoutDirectives, whenFalse.hasDirective_withoutDirectives]
  | .binary _ _ left right =>
    simp [Expr.withoutDirectives, Expr.hasDirective, left.hasDirective_withoutDirectives,
      right.hasDirective_withoutDirectives]
  | .unary _ _ operand =>
    simp [Expr.withoutDirectives, Expr.hasDirective, operand.hasDirective_withoutDirectives]
  | .list _ items =>
    simp [Expr.withoutDirectives, Expr.hasDirective, anyHasDirective_without items]
  | .object _ items =>
    simp [Expr.withoutDirectives, Expr.hasDirective, anyPairHasDirective_without items]
  | .comprehension _ collection _ _ filter key value _ =>
    have hkey : (key.map Expr.withoutDirectives).any Expr.hasDirective = false := by
      match key with
      | none => rfl
      | some key => exact key.hasDirective_withoutDirectives
    have hfilter : (filter.map Expr.withoutDirectives).any Expr.hasDirective = false := by
      match filter with
      | none => rfl
      | some filter => exact filter.hasDirective_withoutDirectives
    rw [withoutDirectives_comprehension, hasDirective_comprehension,
      collection.hasDirective_withoutDirectives, value.hasDirective_withoutDirectives, hkey,
      hfilter]
    rfl
  | .splat _ source path =>
    simp [Expr.withoutDirectives, Expr.hasDirective, source.hasDirective_withoutDirectives,
      anyStepHasDirective_without path]
  | .template _ parts =>
    simp [Expr.withoutDirectives, Expr.hasDirective, anyPartHasDirective_without parts]

theorem anyHasDirective_without (es : List Expr) :
    anyHasDirective (withoutDirectivesInAll es) = false := by
  match es with
  | [] => simp [withoutDirectivesInAll, anyHasDirective]
  | e :: es =>
    simp [withoutDirectivesInAll, anyHasDirective, e.hasDirective_withoutDirectives,
      anyHasDirective_without es]

theorem anyPairHasDirective_without (items : List (Expr × Expr)) :
    anyPairHasDirective (withoutDirectivesInPairs items) = false := by
  match items with
  | [] => simp [withoutDirectivesInPairs, anyPairHasDirective]
  | (key, value) :: rest =>
    simp [withoutDirectivesInPairs, anyPairHasDirective, key.hasDirective_withoutDirectives,
      value.hasDirective_withoutDirectives, anyPairHasDirective_without rest]

theorem anyStepHasDirective_without (path : List Step) :
    anyStepHasDirective (withoutDirectivesInSteps path) = false := by
  match path with
  | [] => simp [withoutDirectivesInSteps, anyStepHasDirective]
  | .access _ :: rest =>
    simp [withoutDirectivesInSteps, anyStepHasDirective, anyStepHasDirective_without rest]
  | .index key :: rest =>
    simp [withoutDirectivesInSteps, anyStepHasDirective, key.hasDirective_withoutDirectives,
      anyStepHasDirective_without rest]

theorem anyPartHasDirective_without (parts : List Part) :
    anyPartHasDirective (withoutDirectivesInParts parts) = false := by
  match parts with
  | [] => simp [withoutDirectivesInParts, anyPartHasDirective]
  | .text _ :: rest =>
    simp [withoutDirectivesInParts, anyPartHasDirective, anyPartHasDirective_without rest]
  | .interpolation expression :: rest =>
    simp [withoutDirectivesInParts, anyPartHasDirective,
      expression.hasDirective_withoutDirectives, anyPartHasDirective_without rest]
  | .directive directive :: rest =>
    simp [withoutDirectivesInParts, anyPartHasDirective, directive.hasDirective_toExpr,
      anyPartHasDirective_without rest]

theorem Directive.hasDirective_toExpr (directive : Directive) :
    directive.toExpr.hasDirective = false := by
  match directive with
  | .ifElse _ condition thenParts elseParts =>
    simp [Directive.toExpr, Expr.hasDirective, condition.hasDirective_withoutDirectives,
      anyPartHasDirective_without thenParts, anyPartHasDirective_without elseParts]
  | .forEach _ collection _ _ body =>
    simp [Directive.toExpr, Expr.hasDirective, anyHasDirective,
      collection.hasDirective_withoutDirectives, anyPartHasDirective_without body]

end

/-! ## Texts that may not be known -/

/-- The value of a text that may not be known. -/
def templateValue : Option String → Value
  | some text => .string text
  | none => .unknown

/-- Such a text is interpolated as it is. -/
theorem interpolatedText?_templateValue (text : Option String) (span : Option Span) :
    interpolatedText? (templateValue text) span = .ok text := by
  cases text with
  | none => rfl
  | some text => rfl

variable {library : Library} {span : Option Span}

theorem evaluate_template (parts : List Part) (scope : Scope) :
    (Expr.template span parts).evaluate library scope
      = templateValue <$> evaluateParts library span parts scope := by
  rw [Expr.evaluate, map_eq_pure_bind]
  refine bind_congr fun text => ?_
  cases text <;> rfl

/-! ## Joined texts -/

/-- Known texts are written one behind the other. -/
theorem foldl_appendKnown_some (texts : List String) (start : String) :
    (texts.map some).foldl appendKnown (some start) = some (start ++ Text.join "" texts) := by
  induction texts generalizing start with
  | nil => exact congrArg some (String.append_empty).symm
  | cons text rest ih =>
    rw [Text.join_cons, ← String.append_assoc]
    exact ih (start ++ text)

/-- What is appended to a text that is not known is not known. -/
theorem foldl_appendKnown_none (texts : List (Option String)) :
    texts.foldl appendKnown none = none := by
  induction texts with
  | nil => rfl
  | cons text rest ih => exact ih

/-- One text that is not known is enough. -/
theorem foldl_appendKnown_of_mem {texts : List (Option String)} (hmem : none ∈ texts)
    (start : Option String) : texts.foldl appendKnown start = none := by
  obtain ⟨before, after, rfl⟩ := List.append_of_mem hmem
  rw [List.foldl_append, List.foldl_cons]
  have hnone : appendKnown (before.foldl appendKnown start) none = none := Option.bind_fun_none _
  rw [hnone, foldl_appendKnown_none]

/-- Texts are known all together, or one of them is not. -/
theorem eq_map_some_or_mem_none (texts : List (Option String)) :
    (∃ known : List String, texts = known.map some) ∨ none ∈ texts := by
  induction texts with
  | nil => exact .inl ⟨[], rfl⟩
  | cons text rest ih =>
    match text, ih with
    | none, _ => exact .inr List.mem_cons_self
    | some _, .inr hmem => exact .inr (List.mem_cons_of_mem _ hmem)
    | some text, .inl ⟨known, hknown⟩ =>
      exact .inl ⟨text :: known, congrArg (some text :: ·) hknown⟩

/-- The function that joins texts looks for unknown elements first. -/
theorem call_join_unknown {values : List Value} (h : Value.anyContainsUnknown values = true) :
    Library.standard.call "join" [.string "", .list values] span = .ok .unknown := by
  show (if Value.anyContainsUnknown values || false then Except.ok Value.unknown else _) = _
  rw [h]
  rfl

/-- The joined values of texts are the value of the texts one behind the other. -/
theorem call_join (texts : List (Option String)) :
    Library.standard.call "join" [.string "", .list (texts.map templateValue)] span
      = .ok (templateValue (texts.foldl appendKnown (some ""))) := by
  rcases eq_map_some_or_mem_none texts with ⟨known, rfl⟩ | hmem
  · have hvalues : (known.map some).map templateValue = known.map .string := by
      rw [List.map_map]
      rfl
    rw [hvalues, foldl_appendKnown_some, Library.call_join_texts, String.empty_append]
    rfl
  · have hunknown : Value.anyContainsUnknown (texts.map templateValue) = true := by
      rw [Value.anyContainsUnknown_eq_any, List.any_map, List.any_eq_true]
      exact ⟨none, hmem, rfl⟩
    rw [call_join_unknown hunknown, foldl_appendKnown_of_mem hmem]
    rfl

/-! ## Loops -/

section

variable {m : Type → Type} [Monad m] [LawfulMonad m] {α β γ : Type}

/-- What a loop collects may be collected from a list of all results. -/
theorem foldlM_collect (f : α → m β) (g : γ → β → γ) (xs : List α) (start : γ) :
    xs.foldlM (fun c x => do return g c (← f x)) start = (do
      return (← xs.mapM f).foldl g start) := by
  induction xs generalizing start with
  | nil => simp
  | cons x rest ih =>
    simp only [List.foldlM_cons, List.mapM_cons, bind_assoc, pure_bind, ih, List.foldl_cons]

theorem mapM_map_result (f : α → m β) (g : β → γ) (xs : List α) :
    xs.mapM (fun x => g <$> f x) = List.map g <$> xs.mapM f := by
  induction xs with
  | nil => simp
  | cons x rest ih => simp [List.mapM_cons, ih]

end

theorem evaluate_join (e : Expr) (scope : Scope) :
    (Expr.call span "join" [.literal span (.string ""), e]).evaluate Library.standard scope = (do
      let v ← e.evaluate Library.standard scope
      Library.standard.call "join" [.string "", v] span) := by
  rw [evaluate_call _ _ _ _ (by decide) (by decide), evaluateAll, Expr.evaluate, evaluateAll,
    evaluateAll]
  cases e.evaluate Library.standard scope <;> rfl

/-- A repeated text is the joined list of a comprehension. -/
theorem evaluate_joinedComprehension (collection : Expr) (keyName : Option String)
    (valueName : String) (body : List Part) (scope : Scope) :
    (Expr.call span "join" [.literal span (.string ""),
        .comprehension span collection keyName valueName none none (.template span body)
          false]).evaluate Library.standard scope
      = templateValue <$> (Directive.forEach span collection keyName valueName body).evaluate
          Library.standard scope := by
  rw [evaluate_join, evaluate_listComprehension, Directive.evaluate, bind_assoc, map_bind]
  refine bind_congr fun c => ?_
  split
  · rfl
  -- Both sides collect the texts of all elements before they look at them.
  simp only [evaluate_template, mapM_map_result, foldlM_collect, bind_assoc, map_bind,
    bind_map_left, map_pure]
  exact bind_congr fun pairs => bind_congr fun texts => call_join texts

/-! ## The simulation -/

/-- Texts on one side are the values of texts on the other. -/
theorem agrees_templateValue {x y : Outcome (Option String)} (h : Agrees Eq x y) :
    Agrees (fun text v => v = templateValue text) x (templateValue <$> y) := by
  cases h with
  | ok htext => exact .ok (congrArg templateValue htext.symm)
  | error hfault => exact .error hfault

/-- Where a condition stands is only told in the message of a failure. -/
theorem truth?_context (v : Value) (context context' : String) :
    Agrees Eq (truth? v context span) (truth? v context' span) := by
  cases v with
  | unknown | bool => exact .refl _
  | _ => exact .fail (by rfl)

theorem withoutDirectives_span (e : Expr) : e.withoutDirectives.span = e.span := by
  cases e with
  | comprehension _ _ _ _ filter key _ _ => cases filter <;> cases key <;> rfl
  | _ => rfl

theorem withoutDirectivesInAll_isEmpty (es : List Expr) :
    (withoutDirectivesInAll es).isEmpty = es.isEmpty := by
  cases es <;> rfl

/-- Two expressions have the same value in a scope, or fail with faults of one class. -/
def Expr.Matches (library : Library) (scope : Scope) (e e' : Expr) : Prop :=
  Agrees Eq (e.evaluate library scope) (e'.evaluate library scope)

section

variable {inner : Scope} {filter filter' key key' : Option Expr} {value value' : Expr}

theorem keepsElement_matches (h : Option.Rel (Expr.Matches library inner) filter filter') :
    Agrees Eq (keepsElement library span filter inner)
      (keepsElement library span filter' inner) := by
  cases h with
  | none => exact .refl _
  | some h => exact h.bind_same fun _ => .refl _

theorem contribution_matches (hkey : Option.Rel (Expr.Matches library inner) key key')
    (hvalue : Expr.Matches library inner value value') :
    Agrees Eq (contribution library span key value inner)
      (contribution library span key' value' inner) := by
  cases hkey with
  | none => exact hvalue.bind_same fun _ => .refl _
  | some hkey => exact hkey.bind_same fun _ => hvalue.bind_same fun _ => .refl _

/-- A comprehension takes the same turn with expressions that match. -/
theorem elementTurn_matches (hfilter : Option.Rel (Expr.Matches library inner) filter filter')
    (hkey : Option.Rel (Expr.Matches library inner) key key')
    (hvalue : Expr.Matches library inner value value') :
    Agrees Eq (elementTurn library span filter key value inner)
      (elementTurn library span filter' key' value' inner) := by
  refine (keepsElement_matches hfilter).bind_same fun kept => ?_
  match kept with
  | none | some false => exact .refl _
  | some true => exact contribution_matches hkey hvalue

end

mutual

/-- An expression agrees with the one in which its directives are written as expressions. -/
theorem Expr.withoutDirectives_agrees (e : Expr) (scope : Scope) :
    e.Matches Library.standard scope e.withoutDirectives := by
  unfold Expr.Matches
  match e with
  | .literal _ _ | .ref _ _ | .stray _ =>
    rw [Expr.withoutDirectives]
    exact .refl _
  | .index span collection key =>
    rw [Expr.withoutDirectives, Expr.evaluate, Expr.evaluate]
    refine (collection.withoutDirectives_agrees scope).bind_same fun c => ?_
    exact (key.withoutDirectives_agrees scope).bind_same fun k => .refl _
  | .access span target name =>
    rw [Expr.withoutDirectives, Expr.evaluate, Expr.evaluate]
    exact (target.withoutDirectives_agrees scope).bind_same fun v => .refl _
  | .call span function arguments =>
    rw [Expr.withoutDirectives]
    by_cases htry : function = "try"
    · -- The arguments are tried one after another, and fail on both sides or on neither.
      rw [Expr.evaluate.eq_def, Expr.evaluate.eq_def]
      dsimp only
      rw [if_pos htry, if_pos htry, withoutDirectivesInAll_isEmpty]
      refine .ite Iff.rfl (fun _ => .refl _) fun _ => ?_
      exact evaluateFirst_withoutDirectives span arguments [] [] scope
    by_cases hcan : function = "can"
    · rw [Expr.evaluate.eq_def, Expr.evaluate.eq_def]
      dsimp only
      rw [if_neg htry, if_neg htry, if_pos hcan, if_pos hcan]
      match arguments with
      | [argument] =>
        have hargument := argument.withoutDirectives_agrees scope
        simp only [withoutDirectivesInAll]
        unfold Expr.Matches at hargument
        generalize argument.evaluate Library.standard scope = x at hargument
        generalize argument.withoutDirectives.evaluate Library.standard scope = y at hargument
        cases hargument with
        | ok _ => exact .refl _
        | error hfault =>
          -- An error is turned into a value, and a defect of the same class passes.
          cases hfault with
          | error _ => exact .refl _
          | defect d => exact .refl _
          | infinite shown shown' => exact .error (.infinite shown shown')
      | [] | _ :: _ :: _ => exact .fail (by rfl)
    · rw [evaluate_call _ _ _ _ htry hcan, evaluate_call _ _ _ _ htry hcan]
      exact (evaluateAll_withoutDirectives arguments scope).bind_same fun values => .refl _
  | .conditional span condition whenTrue whenFalse =>
    rw [Expr.withoutDirectives, Expr.evaluate, Expr.evaluate]
    refine (condition.withoutDirectives_agrees scope).bind_same fun v => ?_
    refine (Concur.refl (truth? v "condition" span)).bind_same fun truth => ?_
    match truth with
    | none => exact .refl _
    | some true => exact whenTrue.withoutDirectives_agrees scope
    | some false => exact whenFalse.withoutDirectives_agrees scope
  | .binary span operator left right =>
    rw [Expr.withoutDirectives, Expr.evaluate, Expr.evaluate]
    refine (left.withoutDirectives_agrees scope).bind_same fun v => ?_
    exact (right.withoutDirectives_agrees scope).bind_same fun w => .refl _
  | .unary span operator operand =>
    rw [Expr.withoutDirectives, Expr.evaluate, Expr.evaluate]
    exact (operand.withoutDirectives_agrees scope).bind_same fun v => .refl _
  | .list span items =>
    rw [Expr.withoutDirectives, Expr.evaluate, Expr.evaluate]
    exact (evaluateAll_withoutDirectives items scope).map fun _ _ hvalues => congrArg _ hvalues
  | .object span items =>
    rw [Expr.withoutDirectives, Expr.evaluate, Expr.evaluate]
    exact (evaluateFields_withoutDirectives span items false [] scope).bind_same
      fun fields => .refl _
  | .comprehension span collection keyName valueName filter key value grouping =>
    rw [withoutDirectives_comprehension, evaluate_comprehension, evaluate_comprehension]
    refine (collection.withoutDirectives_agrees scope).bind_same fun c => ?_
    refine .ite Iff.rfl (fun _ => .refl _) fun _ => ?_
    refine (Concur.refl (c.iteration span)).bind_same fun pairs => ?_
    refine (Concur.foldlM_same ?_ pairs _).bind_same fun harvest => ?_
    · intro harvest pair
      refine (elementTurn_matches ?_ ?_ (value.withoutDirectives_agrees _)).bind_same
        fun turn => .refl _
      · match filter with
        | none => exact .none
        | some filter => exact .some (filter.withoutDirectives_agrees _)
      · match key with
        | none => exact .none
        | some key => exact .some (key.withoutDirectives_agrees _)
    · rw [Option.isSome_map]
      exact .refl _
  | .splat span source path =>
    have hsteps : ∀ v, Agrees Eq
        (evaluateSteps Library.standard span path v (scope.child [(SymbolPath.splatItem, v)]))
        (evaluateSteps Library.standard span (withoutDirectivesInSteps path) v
          (scope.child [(SymbolPath.splatItem, v)])) :=
      fun v => evaluateSteps_withoutDirectives span path v _
    rw [Expr.withoutDirectives, Expr.evaluate, Expr.evaluate]
    refine (source.withoutDirectives_agrees scope).bind_same fun v => ?_
    match v with
    | .unknown | .null => exact .refl _
    | .list items | .set items =>
      exact (Concur.mapM_same hsteps items).map fun _ _ hvalues => congrArg Value.list hvalues
    | .bool _ | .number _ | .string _ | .map _ | .object _ =>
      exact (hsteps _).bind_same fun item => .refl _
  | .template span parts =>
    rw [Expr.withoutDirectives, evaluate_template, evaluate_template]
    exact (evaluateParts_withoutDirectives span parts scope).map fun _ _ htext => congrArg _ htext

theorem evaluateAll_withoutDirectives (es : List Expr) (scope : Scope) :
    Agrees Eq (evaluateAll Library.standard es scope)
      (evaluateAll Library.standard (withoutDirectivesInAll es) scope) := by
  match es with
  | [] => exact .refl _
  | e :: es =>
    rw [withoutDirectivesInAll, evaluateAll, evaluateAll]
    refine (e.withoutDirectives_agrees scope).bind_same fun v => ?_
    exact (evaluateAll_withoutDirectives es scope).bind_same fun values => .refl _

/-- Earlier failures are only shown in the last message. -/
theorem evaluateFirst_withoutDirectives (span : Option Span) (es : List Expr)
    (failures failures' : List Diagnostic) (scope : Scope) :
    Agrees Eq (evaluateFirst Library.standard span es failures scope)
      (evaluateFirst Library.standard span (withoutDirectivesInAll es) failures' scope) := by
  match es with
  | [] =>
    rw [withoutDirectivesInAll, evaluateFirst, evaluateFirst]
    exact .error (.error rfl)
  | e :: es =>
    have hfirst := e.withoutDirectives_agrees scope
    unfold Expr.Matches at hfirst
    rw [withoutDirectivesInAll, evaluateFirst, evaluateFirst]
    generalize e.evaluate Library.standard scope = x at hfirst
    generalize e.withoutDirectives.evaluate Library.standard scope = y at hfirst
    cases hfirst with
    | ok hvw => exact .ok hvw
    | error hfault =>
      -- Only errors lead to the next argument.
      cases hfault with
      | error _ => exact evaluateFirst_withoutDirectives span es _ _ scope
      | defect d => exact .error (.defect d)
      | infinite shown shown' => exact .error (.infinite shown shown')

theorem evaluateFields_withoutDirectives (span : Option Span) (items : List (Expr × Expr))
    (undecided : Bool) (earlier : Table String Value) (scope : Scope) :
    Agrees Eq (evaluateFields Library.standard span items undecided earlier scope)
      (evaluateFields Library.standard span (withoutDirectivesInPairs items) undecided earlier
        scope) := by
  match items with
  | [] => exact .refl _
  | (key, value) :: rest =>
    rw [withoutDirectivesInPairs, evaluateFields, evaluateFields, withoutDirectives_span]
    refine (key.withoutDirectives_agrees scope).bind_same fun k => ?_
    refine (value.withoutDirectives_agrees scope).bind_same fun v => ?_
    refine .ite Iff.rfl
      (fun _ => evaluateFields_withoutDirectives span rest true earlier scope) fun _ => ?_
    refine (Concur.refl (keyText k (key.span.or span))).bind_same fun name => ?_
    refine .ite Iff.rfl (fun _ => .refl _) fun _ => ?_
    exact evaluateFields_withoutDirectives span rest undecided _ scope

theorem evaluateSteps_withoutDirectives (span : Option Span) (path : List Step) (v : Value)
    (scope : Scope) :
    Agrees Eq (evaluateSteps Library.standard span path v scope)
      (evaluateSteps Library.standard span (withoutDirectivesInSteps path) v scope) := by
  match path with
  | [] => exact .refl _
  | .access name :: rest =>
    rw [withoutDirectivesInSteps, evaluateSteps, evaluateSteps]
    refine (Concur.refl (v.field name span)).bind_same fun w => ?_
    exact evaluateSteps_withoutDirectives span rest w scope
  | .index key :: rest =>
    rw [withoutDirectivesInSteps, evaluateSteps, evaluateSteps]
    refine (key.withoutDirectives_agrees scope).bind_same fun k => ?_
    refine (Concur.refl (v.element k span)).bind_same fun w => ?_
    exact evaluateSteps_withoutDirectives span rest w scope

theorem evaluateParts_withoutDirectives (span : Option Span) (parts : List Part) (scope : Scope) :
    Agrees Eq (evaluateParts Library.standard span parts scope)
      (evaluateParts Library.standard span (withoutDirectivesInParts parts) scope) := by
  match parts with
  | [] => exact .refl _
  | .text x :: rest =>
    rw [withoutDirectivesInParts, evaluateParts, evaluateParts]
    exact (evaluateParts_withoutDirectives span rest scope).bind_same fun others => .refl _
  | .interpolation expression :: rest =>
    rw [withoutDirectivesInParts, evaluateParts, evaluateParts, withoutDirectives_span]
    refine (expression.withoutDirectives_agrees scope).bind_same fun v => ?_
    refine (Concur.refl (interpolatedText? v (expression.span.or span))).bind_same fun text => ?_
    exact (evaluateParts_withoutDirectives span rest scope).bind_same fun others => .refl _
  | .directive directive :: rest =>
    rw [withoutDirectivesInParts, evaluateParts, evaluateParts]
    refine (directive.toExpr_agrees scope).bind ?_
    rintro text _ - - rfl
    rw [interpolatedText?_templateValue]
    exact (evaluateParts_withoutDirectives span rest scope).bind_same fun others => .refl _

/-- The text of a directive is the value of the expression that it stands for. -/
theorem Directive.toExpr_agrees (directive : Directive) (scope : Scope) :
    Agrees (fun text v => v = templateValue text) (directive.evaluate Library.standard scope)
      (directive.toExpr.evaluate Library.standard scope) := by
  match directive with
  | .ifElse span condition thenParts elseParts =>
    rw [Directive.toExpr, Directive.evaluate, Expr.evaluate]
    refine (condition.withoutDirectives_agrees scope).bind_same fun v => ?_
    refine (truth?_context v _ _).bind_same fun truth => ?_
    match truth with
    | none => exact .pure rfl
    | some true =>
      dsimp only
      rw [evaluate_template]
      exact agrees_templateValue (evaluateParts_withoutDirectives span thenParts scope)
    | some false =>
      dsimp only
      rw [evaluate_template]
      exact agrees_templateValue (evaluateParts_withoutDirectives span elseParts scope)
  | .forEach span collection keyName valueName body =>
    rw [Directive.toExpr, evaluate_joinedComprehension]
    refine agrees_templateValue ?_
    rw [Directive.evaluate, Directive.evaluate]
    refine (collection.withoutDirectives_agrees scope).bind_same fun c => ?_
    refine .ite Iff.rfl (fun _ => .refl _) fun _ => ?_
    refine (Concur.refl (c.iteration span)).bind_same fun pairs => ?_
    refine Concur.foldlM_same (fun text pair => ?_) pairs _
    exact (evaluateParts_withoutDirectives span body _).bind_same fun others => .refl _

end

/-! ## Templates -/

/-- A template gives the same text with its directives written as expressions, is unknown with both,
or fails with faults of one class. -/
theorem template_agrees_withoutDirectives (span : Option Span) (parts : List Part)
    (scope : Scope) :
    ((Expr.template span parts).withoutDirectives.hasDirective = false)
    ∧ Agrees (fun v w => v = w ∧ (v = .unknown ∨ ∃ text, v = .string text))
        ((Expr.template span parts).evaluate Library.standard scope)
        ((Expr.template span parts).withoutDirectives.evaluate Library.standard scope) := by
  refine ⟨Expr.hasDirective_withoutDirectives _, ?_⟩
  rw [Expr.withoutDirectives, evaluate_template, evaluate_template]
  refine (evaluateParts_withoutDirectives span parts scope).map ?_
  rintro text _ rfl
  refine ⟨rfl, ?_⟩
  cases text with
  | none => exact .inl rfl
  | some text => exact .inr ⟨text, rfl⟩

end Groundplan
