import Groundplan.Proofs.Evaluation
import Groundplan.Proofs.Safety.Library
import Groundplan.Proofs.Table

/-!
# What Evaluation Yields

Evaluation builds values from those of literals, of the scope and of the library, and it comes to
defects only in a few places: where the text of a number is needed, in calls, and at operators and
directives that stand in a wrong place.  If a property of values passes between collections and
their parts, and each of these places is admitted by a set of defects, then every expression yields
values with the property and defects of the set.

## Main Definitions

- `Expr.subexpressions`: an expression and all expressions inside it
- `Expr.IsWellFormed`: operators and directives stand where they belong
- `Expr.writes`: an expression that needs the text of a value that it computes
- `Hereditary`: a property of values that depends on the structure of collections only
- `Expr.Admitted`: what is asked of every expression inside an expression

## Main Statements

- `Expr.evaluate_yields`: evaluation yields what its parts admit
-/

namespace Groundplan

/-! ## The expressions inside an expression -/

mutual

/-- An expression and the expressions inside it, at any depth. -/
def Expr.subexpressions : Expr → List Expr
  | .literal span value => [.literal span value]
  | .ref span path => [.ref span path]
  | .index span collection key =>
    .index span collection key :: (collection.subexpressions ++ key.subexpressions)
  | .access span target name => .access span target name :: target.subexpressions
  | .call span function arguments =>
    .call span function arguments :: subexpressionsOfAll arguments
  | .conditional span condition whenTrue whenFalse =>
    .conditional span condition whenTrue whenFalse ::
      (condition.subexpressions ++ whenTrue.subexpressions ++ whenFalse.subexpressions)
  | .binary span operator left right =>
    .binary span operator left right :: (left.subexpressions ++ right.subexpressions)
  | .unary span operator operand => .unary span operator operand :: operand.subexpressions
  | .list span items => .list span items :: subexpressionsOfAll items
  | .object span items => .object span items :: subexpressionsOfPairs items
  | .comprehension span collection keyName valueName filter key value grouping =>
    .comprehension span collection keyName valueName filter key value grouping ::
      (collection.subexpressions ++ value.subexpressions
        ++ (match key with
          | some key => key.subexpressions
          | none => [])
        ++ (match filter with
          | some filter => filter.subexpressions
          | none => []))
  | .splat span source path =>
    .splat span source path :: (source.subexpressions ++ subexpressionsOfSteps path)
  | .template span parts => .template span parts :: subexpressionsOfParts parts
  | .stray directive => .stray directive :: directive.subexpressions

/-- The expressions inside some expressions. -/
def subexpressionsOfAll : List Expr → List Expr
  | [] => []
  | e :: es => e.subexpressions ++ subexpressionsOfAll es

/-- The expressions inside keys and values. -/
def subexpressionsOfPairs : List (Expr × Expr) → List Expr
  | [] => []
  | (key, value) :: rest =>
    key.subexpressions ++ value.subexpressions ++ subexpressionsOfPairs rest

/-- The expressions inside the steps of a splat. -/
def subexpressionsOfSteps : List Step → List Expr
  | [] => []
  | .access _ :: rest => subexpressionsOfSteps rest
  | .index key :: rest => key.subexpressions ++ subexpressionsOfSteps rest

/-- The expressions inside parts of a template. -/
def subexpressionsOfParts : List Part → List Expr
  | [] => []
  | .text _ :: rest => subexpressionsOfParts rest
  | .interpolation expression :: rest =>
    expression.subexpressions ++ subexpressionsOfParts rest
  | .directive directive :: rest => directive.subexpressions ++ subexpressionsOfParts rest

/-- The expressions inside a directive. -/
def Directive.subexpressions : Directive → List Expr
  | .ifElse _ condition thenParts elseParts =>
    condition.subexpressions ++ subexpressionsOfParts thenParts
      ++ subexpressionsOfParts elseParts
  | .forEach _ collection _ _ body => collection.subexpressions ++ subexpressionsOfParts body

end

/-- The expressions inside a comprehension, part by part. -/
theorem subexpressions_comprehension (span : Option Span) (collection : Expr)
    (keyName : Option String) (valueName : String) (filter key : Option Expr) (value : Expr)
    (grouping : Bool) :
    (Expr.comprehension span collection keyName valueName filter key value
        grouping).subexpressions
      = .comprehension span collection keyName valueName filter key value grouping ::
        (collection.subexpressions ++ value.subexpressions
          ++ key.elim [] Expr.subexpressions ++ filter.elim [] Expr.subexpressions) := by
  cases filter <;> cases key <;> simp [Expr.subexpressions]

/-! ## Well-formed expressions -/

/-- Whether an operator stands before a single operand. -/
def Operator.isUnary : Operator → Bool
  | .neg | .not => true
  | _ => false

namespace Expr

/-- Whether an expression is no directive and its operator, if it has one, has as many operands as
it takes. -/
def isProper : Expr → Bool
  | .binary _ operator _ _ => !operator.isUnary
  | .unary _ operator _ => operator.isUnary
  | .stray _ => false
  | _ => true

/-- Binary nodes carry binary operators, unary nodes unary ones, and directives stand in templates
only. -/
def IsWellFormed (e : Expr) : Prop :=
  ∀ x ∈ e.subexpressions, x.isProper = true

end Expr

/-! ## Texts of computed values -/

/-- Whether an expression shows its value, and that is no number without a text. -/
def Expr.isFixed : Expr → Bool
  | .literal _ (.number n) => n.toText.isOk
  | .literal .. => true
  | _ => false

mutual

/-- Whether a part of a template may be the text of a computed value. -/
def Part.writes : Part → Bool
  | .text _ => false
  | .interpolation expression => !expression.isFixed
  | .directive directive => directive.writes

/-- Whether one of some parts may be the text of a computed value. -/
def partsWrite : List Part → Bool
  | [] => false
  | part :: rest => part.writes || partsWrite rest

/-- Whether a part of a directive may be the text of a computed value. -/
def Directive.writes : Directive → Bool
  | .ifElse _ _ thenParts elseParts => partsWrite thenParts || partsWrite elseParts
  | .forEach _ _ _ _ body => partsWrite body

end

/-- Whether a step of a splat may need the text of a computed value. -/
def Step.writes : Step → Bool
  | .access _ => false
  | .index key => !key.isFixed

/-- Whether an expression may need the text of a value that it computes: as a key, as an index in a
message, or as a part of a template. -/
def Expr.writes : Expr → Bool
  | .index _ _ key => !key.isFixed
  | .object _ items => items.any fun item => !item.1.isFixed
  | .comprehension _ _ _ _ _ key _ _ => key.any fun key => !key.isFixed
  | .splat _ _ path => path.any Step.writes
  | .template _ parts => partsWrite parts
  | _ => false

/-! ## Properties of values -/

/-- A property of values that passes between lists and their elements, from sets to their elements,
and between maps and objects with different keys and their values.  Values without parts have it. -/
structure Hereditary (P : Value → Prop) : Prop where
  plain : ∀ v, v.isCollection = false → P v
  list : ∀ items, P (.list items) ↔ ∀ v ∈ items, P v
  set : ∀ items, P (.set items) → ∀ v ∈ items, P v
  map : ∀ entries, P (.map entries) → ∀ entry ∈ entries, P entry.2
  object : ∀ fields, P (.object fields) → ∀ field ∈ fields, P field.2
  ofEntries : ∀ entries, (Table.keys entries).Nodup → (∀ entry ∈ entries, P entry.2) →
    P (.map entries)
  ofFields : ∀ fields, (Table.keys fields).Nodup → (∀ field ∈ fields, P field.2) →
    P (.object fields)

/-- Every value has the property that all values have. -/
theorem hereditary_true : Hereditary fun _ => True :=
  ⟨by simp, by simp, by simp, by simp, by simp, by simp, by simp⟩

/-- Every look-up yields values in `P` and defects in `D`. -/
def Scope.Gives (D : Defect → Prop) (P : Value → Prop) (scope : Scope) : Prop :=
  ∀ path span, Yields D P (scope.lookup path span)

section

variable {library : Library} {D : Defect → Prop} {P : Value → Prop} {v w : Value}

/-! ## Texts and parts of values -/

/-- The text of the value, if it is a number, yields no other defects than those in `D`. -/
def Writable (D : Defect → Prop) (v : Value) : Prop :=
  ∀ n, v = .number n → Raises D (ofArithmetic n.toText)

/-- The only signal that stops the text of a number. -/
theorem toText_eq_error {n : Decimal} {s : Decimal.Signal} (h : n.toText = .error s) :
    s = .overflow := by
  unfold Decimal.toText at h
  split at h
  · cases h
  · cases hreduced : Decimal.Context.standard.reduce n with
    | ok _ =>
      rw [hreduced] at h
      cases h
    | error s' =>
      rw [hreduced] at h
      cases h
      unfold Decimal.Context.reduce at hreduced
      cases hfinished : Decimal.Context.standard.finish n with
      | ok _ =>
        rw [hfinished] at hreduced
        dsimp only at hreduced
        split at hreduced <;> cases hreduced
      | error s'' =>
        rw [hfinished] at hreduced
        cases hreduced
        unfold Decimal.Context.finish at hfinished
        dsimp only at hfinished
        split_ifs at hfinished <;> cases hfinished <;> rfl

theorem writable_of_overflow (hD : D (.signal .overflow)) (v : Value) : Writable D v := by
  rintro n -
  cases htext : n.toText with
  | ok _ => exact .ok trivial
  | error s =>
    rw [toText_eq_error htext]
    exact .ofDefect hD

theorem writable_of_isFixed {e : Expr} (hfixed : e.isFixed = true) {scope : Scope}
    (hv : e.evaluate library scope = .ok v) : Writable D v := by
  rintro n rfl
  cases e with
  | literal span value =>
    rw [Expr.evaluate] at hv
    cases hv
    cases htext : n.toText with
    | ok _ => exact .ok trivial
    | error s => simp [Expr.isFixed, htext, Except.isOk, Except.toBool] at hfixed
  | _ => simp [Expr.isFixed] at hfixed

/-- What is written down has a text, and what is computed may overflow. -/
theorem writable_of_evaluate {e : Expr} (h : (!e.isFixed) = true → D (.signal .overflow))
    {scope : Scope} (hv : e.evaluate library scope = .ok v) : Writable D v := by
  cases hfixed : e.isFixed with
  | true => exact writable_of_isFixed hfixed hv
  | false => exact writable_of_overflow (h (by rw [hfixed]; rfl)) v

theorem primitiveText_raises (hv : Writable D v) : Raises D v.primitiveText := by
  cases v with
  | number n => exact hv n rfl
  | string | bool => exact .ok trivial
  | null | list | set | map | object | unknown => exact .fail

theorem keyText_raises (hv : Writable D v) (span : Option Span) :
    Raises D (keyText v span) :=
  .ite (fun _ => primitiveText_raises hv) fun _ => .fail

theorem interpolatedText?_raises (hv : Writable D v) (span : Option Span) :
    Raises D (interpolatedText? v span) := by
  refine .ite (fun _ => .ok trivial) fun _ => .ite (fun _ => ?_) fun _ => .fail
  exact (primitiveText_raises hv).map fun _ _ => trivial

theorem truth?_raises (v : Value) (context : String) (span : Option Span) :
    Raises D (truth? v context span) := by
  cases v with
  | unknown | bool => exact .ok trivial
  | null | number | string | list | set | map | object => exact .fail

theorem fieldOf_yields {fields : List (String × Value)} (hfields : ∀ f ∈ fields, P f.2)
    (name : String) (span : Option Span) : Yields D P (Value.fieldOf fields name span) := by
  unfold Value.fieldOf
  split
  · next found => exact .ok (hfields _ (Table.mem_of_get?_eq_some found))
  · exact .fail

theorem elementAt_yields {items : List Value} (hitems : ∀ v ∈ items, P v) {index : Decimal}
    (hindex : Raises D (ofArithmetic index.toText)) (span : Option Span) :
    Yields D P (Value.elementAt items index span) := by
  refine .ite (fun _ => hindex.bind fun _ _ _ => .fail_bind) fun _ => ?_
  split
  · next item found =>
    refine .pure (hitems item ?_)
    split at found
    · cases found
    · exact List.mem_of_getElem? found
  · exact hindex.bind fun _ _ _ => .fail

theorem requireKind_raises (v : Value) (kind : Kind) (text : String) (span : Option Span) :
    Raises D (Operator.requireKind v kind text span) :=
  .ite (fun _ => .ok trivial) fun _ => .fail

namespace Hereditary

variable (hP : Hereditary P)

include hP

theorem field_yields (hv : P v) (name : String) (span : Option Span) :
    Yields D P (v.field name span) := by
  cases v with
  | unknown => exact .ok hv
  | map entries => exact fieldOf_yields (hP.map entries hv) name span
  | object fields => exact fieldOf_yields (hP.object fields hv) name span
  | null | bool | number | string | list | set => exact .fail

theorem element_yields (hv : P v) {key : Value} (hkey : Writable D key) (span : Option Span) :
    Yields D P (v.element key span) := by
  unfold Value.element
  refine .ite (fun _ => .ok (hP.plain _ rfl)) fun _ => ?_
  split
  · exact elementAt_yields ((hP.list _).mp hv) (hkey _ rfl) span
  · exact .fail
  · exact fieldOf_yields (hP.map _ hv) _ span
  · exact fieldOf_yields (hP.object _ hv) _ span
  all_goals exact .fail

theorem iteration_yields (hv : P v) (span : Option Span) :
    Yields D (fun pairs => ∀ pair ∈ pairs, P pair.1 ∧ P pair.2) (v.iteration span) := by
  have hfields : ∀ fields : List (String × Value), (∀ f ∈ fields, P f.2) →
      ∀ pair ∈ (Sorting.sortKeys fields).map fun field => (Value.string field.1, field.2),
        P pair.1 ∧ P pair.2 := by
    intro fields hf pair hpair
    obtain ⟨field, hfield, rfl⟩ := List.mem_map.mp hpair
    exact ⟨hP.plain _ rfl, hf field (Sorting.mem_sortBy.mp hfield)⟩
  cases v with
  | list items =>
    refine .ok fun pair hpair => ?_
    obtain ⟨⟨item, place⟩, hmem, rfl⟩ := List.mem_map.mp hpair
    refine ⟨hP.plain _ rfl, (hP.list items).mp hv item ?_⟩
    exact List.fst_mem_of_mem_zipIdx hmem
  | set items =>
    refine .ok fun pair hpair => ?_
    obtain ⟨item, hmem, rfl⟩ := List.mem_map.mp hpair
    exact ⟨hP.set items hv item hmem, hP.set items hv item hmem⟩
  | map entries => exact .ok (hfields entries (hP.map entries hv))
  | object fields => exact .ok (hfields fields (hP.object fields hv))
  | null | bool | number | string | unknown => exact .fail

/-! ## Operators -/

theorem ofNumber_yields (text : String) (span : Option Span)
    (r : Except Decimal.Signal Decimal) : Yields D P (Operator.ofNumber text span r) := by
  cases r with
  | ok n => exact .ok (hP.plain _ rfl)
  | error s => exact .fail

theorem applyBinary_yields {operator : Operator} (hD : operator.isUnary = true → ∀ d, D d)
    (span : Option Span) : Yields D P (operator.applyBinary v w span) := by
  have hkinds : ∀ {kind : Kind} {next : Outcome Value}, Yields D P next →
      Yields D P (do
        Operator.requireKind v kind operator.text span
        Operator.requireKind w kind operator.text span
        next) :=
    fun hnext => (requireKind_raises _ _ _ span).bind fun _ _ _ =>
      (requireKind_raises _ _ _ span).bind fun _ _ _ => hnext
  cases operator with
  | neg | not => exact .ofDefect (hD rfl _)
  | eq | ne => exact .ite (fun _ => .ok (hP.plain _ rfl)) fun _ => .ok (hP.plain _ rfl)
  | and | or =>
    refine hkinds ?_
    split <;> exact .pure (hP.plain _ rfl)
  | add | sub | mul =>
    refine hkinds ?_
    split
    · exact hP.ofNumber_yields _ span _
    · exact .pure (hP.plain _ rfl)
  | div | mod =>
    refine hkinds ?_
    split
    · exact .ite (fun _ => .fail) fun _ => hP.ofNumber_yields _ span _
    · exact .pure (hP.plain _ rfl)
  | lt | le | gt | ge =>
    refine hkinds ?_
    split
    · exact .ok (hP.plain _ rfl)
    · exact .pure (hP.plain _ rfl)

theorem applyUnary_yields {operator : Operator} (hD : operator.isUnary = false → ∀ d, D d)
    (span : Option Span) : Yields D P (operator.applyUnary v span) := by
  cases operator with
  | neg =>
    refine (requireKind_raises v _ _ span).bind fun _ _ _ => ?_
    split
    · exact hP.ofNumber_yields _ span _
    · exact .pure (hP.plain _ rfl)
  | not =>
    refine (requireKind_raises v _ _ span).bind fun _ _ _ => ?_
    split <;> exact .pure (hP.plain _ rfl)
  | _ => exact .ofDefect (hD rfl _)

end Hereditary

/-! ## Scopes and comprehensions -/

namespace Scope.Gives

/-- A frame of values with the property keeps what look-ups give. -/
theorem child {scope : Scope} (h : scope.Gives D P) {bindings : List (SymbolPath × Value)}
    (hvalues : ∀ b ∈ bindings, P b.2) : Gives D P (scope.child bindings) := by
  have htable : ∀ entry ∈ Table.ofList bindings, P entry.2 :=
    fun entry hentry => hvalues entry (Table.mem_of_mem_ofList hentry)
  intro path span
  cases hbound : Table.get? (Table.ofList bindings) path with
  | none =>
    rw [lookup_child_of_unbound scope span hbound]
    exact h path span
  | some v =>
    rw [lookup_child_of_bound scope span hbound]
    exact .ok (htable _ (Table.mem_of_get?_eq_some hbound))

theorem iteration {scope : Scope} (h : scope.Gives D P) (keyName : Option String)
    (valueName : String) {key value : Value} (hkey : P key) (hvalue : P value) :
    Gives D P (iterationScope scope keyName valueName key value) := by
  cases keyName with
  | none => exact h.child (by simpa [iterationScope] using hvalue)
  | some name => exact h.child (by simpa [iterationScope] using ⟨hvalue, hkey⟩)

end Scope.Gives

/-- What a turn brings has the property. -/
def Turn.Brings (P : Value → Prop) : Turn → Prop
  | .skipped | .undecided => True
  | .item v | .entry _ v => P v

/-- What has been collected has the property; the keys are different, and without grouping there is
one value under each. -/
structure Harvest.Holds (P : Value → Prop) (grouping : Bool) (h : Harvest) : Prop where
  items : ∀ v ∈ h.items, P v
  entries : ∀ entry ∈ h.entries, ∀ v ∈ entry.2, P v
  distinct : (Table.keys h.entries).Nodup
  single : grouping = false → ∀ entry ∈ h.entries, entry.2.length = 1

namespace Harvest

theorem holds_empty (grouping : Bool) : Harvest.empty.Holds P grouping :=
  ⟨fun _ hv => absurd hv List.not_mem_nil, fun _ hentry => absurd hentry List.not_mem_nil,
    List.nodup_nil, fun _ _ hentry => absurd hentry List.not_mem_nil⟩

theorem add_yields {grouping : Bool} {h : Harvest} (hh : h.Holds P grouping) {turn : Turn}
    (hturn : turn.Brings P) (span : Option Span) :
    Yields D (Holds P grouping) (h.add grouping span turn) := by
  obtain ⟨hitems, hentries, hdistinct, hsingle⟩ := hh
  -- The values under a key are those that were there and the new one.
  have hput : ∀ key (values : List Value), (∀ v ∈ values, P v) →
      (grouping = false → values.length = 1) →
      Holds P grouping { h with entries := Table.put h.entries key values } := by
    intro key values hvalues hone
    refine ⟨hitems, fun entry hentry => ?_, Table.nodup_keys_put _ _ _ hdistinct,
      fun hgrouping entry hentry => ?_⟩
    · rcases Table.eq_or_mem_of_mem_put hentry with rfl | hmem
      · exact hvalues
      · exact hentries entry hmem
    · rcases Table.eq_or_mem_of_mem_put hentry with rfl | hmem
      · exact hone hgrouping
      · exact hsingle hgrouping entry hmem
  cases turn with
  | skipped | undecided => exact .ok ⟨hitems, hentries, hdistinct, hsingle⟩
  | item v =>
    refine .ok ⟨fun u hu => ?_, hentries, hdistinct, hsingle⟩
    rcases List.mem_append.mp hu with hu | hu
    · exact hitems u hu
    · exact List.mem_singleton.mp hu ▸ hturn
  | entry key v =>
    unfold add
    dsimp only
    split
    · exact .ok (hput key [v] (fun u hu => List.mem_singleton.mp hu ▸ hturn) fun _ => rfl)
    · next earlier found =>
      refine .ite (fun hgrouping => .ok (hput key _ (fun u hu => ?_) fun hnot => ?_)) fun _ => .fail
      · rcases List.mem_append.mp hu with hu | hu
        · exact hentries _ (Table.mem_of_get?_eq_some found) u hu
        · exact List.mem_singleton.mp hu ▸ hturn
      · rw [hgrouping] at hnot
        cases hnot

/-- With one value under each key, the entries have the keys that were collected. -/
theorem keys_flatMap {entries : Table String (List Value)}
    (h : ∀ entry ∈ entries, entry.2.length = 1) :
    Table.keys (entries.flatMap fun entry => entry.2.map fun v => (entry.1, v))
      = Table.keys entries := by
  induction entries with
  | nil => rfl
  | cons entry entries ih =>
    obtain ⟨hentry, hrest⟩ := List.forall_mem_cons.mp h
    obtain ⟨v, hv⟩ := List.length_eq_one_iff.mp hentry
    have hlater := ih hrest
    unfold Table.keys at hlater ⊢
    rw [List.flatMap_cons, List.map_append, hlater, hv]
    rfl

theorem Holds.result {grouping : Bool} {h : Harvest} (hh : h.Holds P grouping)
    (hP : Hereditary P) (keyed : Bool) : P (h.result keyed grouping) := by
  obtain ⟨hitems, hentries, hdistinct, hsingle⟩ := hh
  unfold Harvest.result
  split_ifs with _ _ hgrouping
  · exact hP.plain _ rfl
  · exact (hP.list _).mpr hitems
  · refine hP.ofEntries _ ?_ fun entry hentry => ?_
    · unfold Table.keys at hdistinct ⊢
      rwa [List.map_map]
    · obtain ⟨⟨key, values⟩, hmem, rfl⟩ := List.mem_map.mp hentry
      exact (hP.list _).mpr (hentries _ hmem)
  · have hnot : grouping = false := by simpa using hgrouping
    refine hP.ofEntries _ ?_ fun entry hentry => ?_
    · exact (keys_flatMap (hsingle hnot)).symm ▸ hdistinct
    · obtain ⟨⟨key, values⟩, hmem, hvalue⟩ := List.mem_flatMap.mp hentry
      obtain ⟨v, hv, rfl⟩ := List.mem_map.mp hvalue
      exact hentries _ hmem v hv

end Harvest

/-! ## Evaluation -/

/-- The value of a literal has the property, and so has what a called function returns. -/
def Expr.Supplied (library : Library) (D : Defect → Prop) (P : Value → Prop) : Expr → Prop
  | .literal _ v => P v
  | .call _ function _ => function ≠ "try" → function ≠ "can" → ∀ args span,
    (∀ v ∈ args, P v) → Yields D P (library.call function args span)
  | _ => True

/-- What is asked of every expression inside an expression.  One that stands in a wrong place may
come to any defect. -/
structure Expr.Admitted (library : Library) (D : Defect → Prop) (P : Value → Prop) (x : Expr) :
    Prop where
  proper : x.isProper = false → ∀ d, D d
  overflow : x.writes = true → D (.signal .overflow)
  supplied : x.Supplied library D P

mutual

/-- An expression yields values with a property and defects of a set if all expressions inside it
are admitted and all look-ups give such values and defects. -/
theorem Expr.evaluate_yields (hP : Hereditary P) (e : Expr)
    (h : ∀ x ∈ e.subexpressions, x.Admitted library D P) {scope : Scope}
    (hscope : scope.Gives D P) : Yields D P (e.evaluate library scope) := by
  match e with
  | .literal span value =>
    simp only [Expr.subexpressions, List.forall_mem_singleton] at h
    rw [Expr.evaluate]
    exact .ok h.supplied
  | .ref span path =>
    rw [Expr.evaluate]
    exact hscope path span
  | .index span collection key =>
    simp only [Expr.subexpressions, List.forall_mem_cons, List.forall_mem_append] at h
    obtain ⟨hself, hcollection, hkey⟩ := h
    rw [Expr.evaluate]
    refine (Expr.evaluate_yields hP collection hcollection hscope).bind fun c _ hc => ?_
    refine (Expr.evaluate_yields hP key hkey hscope).bind fun k hk _ => ?_
    exact hP.element_yields hc (writable_of_evaluate hself.overflow hk) span
  | .access span target name =>
    simp only [Expr.subexpressions, List.forall_mem_cons] at h
    rw [Expr.evaluate]
    exact (Expr.evaluate_yields hP target h.2 hscope).bind fun v _ hv => hP.field_yields hv name span
  | .call span function arguments =>
    simp only [Expr.subexpressions, List.forall_mem_cons] at h
    obtain ⟨hself, harguments⟩ := h
    by_cases htry : function = "try"
    · rw [Expr.evaluate.eq_def]
      dsimp only
      rw [if_pos htry]
      refine .ite (fun _ => .fail) fun _ => ?_
      exact evaluateFirst_yields hP span arguments [] harguments hscope
    by_cases hcan : function = "can"
    · rw [Expr.evaluate.eq_def]
      dsimp only
      rw [if_neg htry, if_pos hcan]
      match arguments with
      | [argument] =>
        simp only [subexpressionsOfAll, List.append_nil] at harguments
        have hargument := Expr.evaluate_yields hP argument harguments hscope
        dsimp only
        split
        · exact .ok (hP.plain _ rfl)
        · exact .ok (hP.plain _ rfl)
        · next d hd => exact .ofDefect (hargument.defect d hd)
      | [] | _ :: _ :: _ => exact .fail
    · rw [evaluate_call library span arguments scope htry hcan]
      refine (evaluateAll_yields hP arguments harguments hscope).bind fun values _ hvalues => ?_
      exact hself.supplied htry hcan values span hvalues
  | .conditional span condition whenTrue whenFalse =>
    simp only [Expr.subexpressions, List.forall_mem_cons, List.forall_mem_append] at h
    obtain ⟨_, ⟨hcondition, htrue⟩, hfalse⟩ := h
    rw [Expr.evaluate]
    refine (Expr.evaluate_yields hP condition hcondition hscope).bind fun c _ _ => ?_
    refine (truth?_raises c _ span).bind fun truth _ _ => ?_
    split
    · exact .pure (hP.plain _ rfl)
    · exact Expr.evaluate_yields hP whenTrue htrue hscope
    · exact Expr.evaluate_yields hP whenFalse hfalse hscope
  | .binary span operator left right =>
    simp only [Expr.subexpressions, List.forall_mem_cons, List.forall_mem_append] at h
    obtain ⟨hself, hleft, hright⟩ := h
    rw [Expr.evaluate]
    refine (Expr.evaluate_yields hP left hleft hscope).bind fun a _ _ => ?_
    refine (Expr.evaluate_yields hP right hright hscope).bind fun b _ _ => ?_
    exact hP.applyBinary_yields (fun hunary => hself.proper (by simp [Expr.isProper, hunary])) span
  | .unary span operator operand =>
    simp only [Expr.subexpressions, List.forall_mem_cons] at h
    rw [Expr.evaluate]
    refine (Expr.evaluate_yields hP operand h.2 hscope).bind fun a _ _ => ?_
    exact hP.applyUnary_yields h.1.proper span
  | .list span items =>
    simp only [Expr.subexpressions, List.forall_mem_cons] at h
    rw [Expr.evaluate]
    exact (evaluateAll_yields hP items h.2 hscope).map fun values hvalues =>
      (hP.list values).mpr hvalues
  | .object span items =>
    simp only [Expr.subexpressions, List.forall_mem_cons] at h
    obtain ⟨hself, hitems⟩ := h
    have hkeys : ∀ item ∈ items, (!item.1.isFixed) = true → D (.signal .overflow) :=
      fun item hitem hwrites => hself.overflow (List.any_eq_true.mpr ⟨item, hitem, hwrites⟩)
    have hnone : ∀ field ∈ ([] : Table String Value), P field.2 :=
      fun field hfield => absurd hfield List.not_mem_nil
    have hdistinct : (Table.keys ([] : Table String Value)).Nodup := List.nodup_nil
    rw [Expr.evaluate]
    refine (evaluateFields_yields hP span items hkeys false hdistinct hnone hitems hscope).bind
      fun fields _ hfields => ?_
    split
    · exact .pure (hP.ofFields _ (hfields _ rfl).1 (hfields _ rfl).2)
    · exact .pure (hP.plain _ rfl)
  | .comprehension span collection keyName valueName filter key value grouping =>
    simp only [subexpressions_comprehension, List.forall_mem_cons, List.forall_mem_append] at h
    obtain ⟨hself, ⟨⟨hcollection, hvalue⟩, hkey⟩, hfilter⟩ := h
    rw [evaluate_comprehension]
    refine (Expr.evaluate_yields hP collection hcollection hscope).bind fun c _ hc => ?_
    refine .ite (fun _ => .pure (hP.plain _ rfl)) fun _ => ?_
    refine (hP.iteration_yields hc span).bind fun pairs _ hpairs => ?_
    refine Yields.bind (P := Harvest.Holds P grouping)
      (yields_foldlM (Harvest.holds_empty grouping) ?_) fun harvest _ hharvest =>
        .pure (hharvest.result hP _)
    intro pair hpair harvest hharvest
    have hinner := hscope.iteration keyName valueName (hpairs pair hpair).1 (hpairs pair hpair).2
    have hv := Expr.evaluate_yields hP value hvalue hinner
    refine Yields.bind (P := Turn.Brings P) ?_ fun turn _ hturn =>
      Harvest.add_yields hharvest hturn span
    refine Yields.bind (P := fun _ => True) ?_ fun kept _ _ => ?_
    · match filter with
      | none => exact .pure trivial
      | some filter =>
        exact (Expr.evaluate_yields hP filter hfilter hinner).bind fun v _ _ => truth?_raises v _ span
    · match kept with
      | none => exact .pure trivial
      | some false => exact .pure trivial
      | some true =>
        match key with
        | none => exact hv.bind fun v _ hv => .pure hv
        | some key =>
          refine (Expr.evaluate_yields hP key hkey hinner).bind fun k hk _ => ?_
          refine hv.bind fun v _ hv => .ite (fun _ => .pure trivial) fun _ => ?_
          have hwritable := writable_of_evaluate (fun hwrites => hself.overflow hwrites) hk
          exact (keyText_raises hwritable span).bind fun _ _ _ => .pure hv
  | .splat span source path =>
    simp only [Expr.subexpressions, List.forall_mem_cons, List.forall_mem_append] at h
    obtain ⟨hself, hsource, hpath⟩ := h
    have hkeys : ∀ step ∈ path, step.writes = true → D (.signal .overflow) :=
      fun step hstep hwrites => hself.overflow (List.any_eq_true.mpr ⟨step, hstep, hwrites⟩)
    have hsteps : ∀ item, P item → Yields D P (evaluateSteps library span path item
        (scope.child [(SymbolPath.splatItem, item)])) := fun item hitem =>
      evaluateSteps_yields hP span path hkeys hitem hpath
        (hscope.child (by simpa using hitem))
    have hall : ∀ items : List Value, (∀ v ∈ items, P v) →
        Yields D P (Value.list <$> items.mapM fun item =>
          evaluateSteps library span path item (scope.child [(SymbolPath.splatItem, item)])) :=
      fun items hitems => (yields_mapM fun item hitem => hsteps item (hitems item hitem)).map
        fun values hvalues => (hP.list values).mpr hvalues
    rw [Expr.evaluate]
    refine (Expr.evaluate_yields hP source hsource hscope).bind fun v _ hv => ?_
    split
    · exact .pure hv
    · exact .pure ((hP.list []).mpr fun v hv => absurd hv List.not_mem_nil)
    · exact hall _ ((hP.list _).mp hv)
    · exact hall _ (hP.set _ hv)
    · refine (hsteps _ hv).bind fun item _ hitem => .pure ?_
      exact (hP.list _).mpr (by simpa using hitem)
  | .template span parts =>
    simp only [Expr.subexpressions, List.forall_mem_cons] at h
    rw [Expr.evaluate]
    refine (evaluateParts_yields hP span parts h.1.overflow h.2 hscope).bind fun text _ _ => ?_
    split <;> exact .pure (hP.plain _ rfl)
  | .stray directive =>
    simp only [Expr.subexpressions, List.forall_mem_cons] at h
    rw [Expr.evaluate]
    exact .ofDefect (h.1.proper rfl _)

theorem evaluateAll_yields (hP : Hereditary P) (es : List Expr)
    (h : ∀ x ∈ subexpressionsOfAll es, x.Admitted library D P) {scope : Scope}
    (hscope : scope.Gives D P) :
    Yields D (fun values => ∀ v ∈ values, P v) (evaluateAll library es scope) := by
  match es with
  | [] =>
    rw [evaluateAll]
    exact .ok fun v hv => absurd hv List.not_mem_nil
  | e :: es =>
    simp only [subexpressionsOfAll, List.forall_mem_append] at h
    rw [evaluateAll]
    refine (Expr.evaluate_yields hP e h.1 hscope).bind fun v _ hv => ?_
    refine (evaluateAll_yields hP es h.2 hscope).bind fun vs _ hvs => ?_
    exact .pure (List.forall_mem_cons.mpr ⟨hv, hvs⟩)

theorem evaluateFirst_yields (hP : Hereditary P) (span : Option Span) (es : List Expr)
    (failures : List Diagnostic) (h : ∀ x ∈ subexpressionsOfAll es, x.Admitted library D P) {scope : Scope}
    (hscope : scope.Gives D P) :
    Yields D P (evaluateFirst library span es failures scope) := by
  match es with
  | [] =>
    rw [evaluateFirst]
    exact .ofError
  | e :: es =>
    simp only [subexpressionsOfAll, List.forall_mem_append] at h
    rw [evaluateFirst]
    split
    · exact evaluateFirst_yields hP span es _ h.2 hscope
    · exact Expr.evaluate_yields hP e h.1 hscope

theorem evaluateFields_yields (hP : Hereditary P) (span : Option Span) (items : List (Expr × Expr))
    (hkeys : ∀ item ∈ items, (!item.1.isFixed) = true → D (.signal .overflow))
    (undecided : Bool) {earlier : Table String Value} (hdistinct : (Table.keys earlier).Nodup)
    (hearlier : ∀ field ∈ earlier, P field.2)
    (h : ∀ x ∈ subexpressionsOfPairs items, x.Admitted library D P) {scope : Scope}
    (hscope : scope.Gives D P) :
    Yields D (fun fields => ∀ t, fields = some t →
        (Table.keys t).Nodup ∧ ∀ field ∈ t, P field.2)
      (evaluateFields library span items undecided earlier scope) := by
  match items with
  | [] =>
    rw [evaluateFields]
    refine .ok fun t ht => ?_
    split at ht
    · cases ht
    · cases ht
      exact ⟨hdistinct, hearlier⟩
  | (key, value) :: rest =>
    simp only [subexpressionsOfPairs, List.forall_mem_append] at h
    obtain ⟨⟨hkey, hvalue⟩, hrest⟩ := h
    obtain ⟨hfixed, hkeys⟩ := List.forall_mem_cons.mp hkeys
    rw [evaluateFields]
    refine (Expr.evaluate_yields hP key hkey hscope).bind fun k hk _ => ?_
    refine (Expr.evaluate_yields hP value hvalue hscope).bind fun v _ hv => ?_
    refine .ite
      (fun _ => evaluateFields_yields hP span rest hkeys true hdistinct hearlier hrest hscope)
      fun _ => ?_
    have hwritable := writable_of_evaluate hfixed hk
    refine (keyText_raises hwritable (key.span.or span)).bind fun name _ _ => ?_
    refine .ite (fun _ => .fail) fun _ => ?_
    refine evaluateFields_yields hP span rest hkeys undecided
      (Table.nodup_keys_put earlier name v hdistinct) (fun field hfield => ?_) hrest hscope
    rcases Table.eq_or_mem_of_mem_put hfield with rfl | hmem
    · exact hv
    · exact hearlier field hmem

theorem evaluateSteps_yields (hP : Hereditary P) (span : Option Span) (path : List Step)
    (hkeys : ∀ step ∈ path, step.writes = true → D (.signal .overflow)) {v : Value} (hv : P v)
    (h : ∀ x ∈ subexpressionsOfSteps path, x.Admitted library D P) {scope : Scope}
    (hscope : scope.Gives D P) :
    Yields D P (evaluateSteps library span path v scope) := by
  match path with
  | [] =>
    rw [evaluateSteps]
    exact .ok hv
  | .access name :: rest =>
    simp only [subexpressionsOfSteps] at h
    rw [evaluateSteps]
    refine (hP.field_yields hv name span).bind fun u _ hu => ?_
    exact evaluateSteps_yields hP span rest (List.forall_mem_cons.mp hkeys).2 hu h hscope
  | .index key :: rest =>
    simp only [subexpressionsOfSteps, List.forall_mem_append] at h
    obtain ⟨hfixed, hkeys⟩ := List.forall_mem_cons.mp hkeys
    rw [evaluateSteps]
    refine (Expr.evaluate_yields hP key h.1 hscope).bind fun k hk _ => ?_
    have hwritable := writable_of_evaluate hfixed hk
    refine (hP.element_yields hv hwritable span).bind fun u _ hu => ?_
    exact evaluateSteps_yields hP span rest hkeys hu h.2 hscope

theorem evaluateParts_yields (hP : Hereditary P) (span : Option Span) (parts : List Part)
    (hwrites : partsWrite parts = true → D (.signal .overflow))
    (h : ∀ x ∈ subexpressionsOfParts parts, x.Admitted library D P) {scope : Scope}
    (hscope : scope.Gives D P) : Raises D (evaluateParts library span parts scope) := by
  match parts with
  | [] =>
    rw [evaluateParts]
    exact .ok trivial
  | .text s :: rest =>
    simp only [subexpressionsOfParts] at h
    rw [evaluateParts]
    exact (evaluateParts_yields hP span rest hwrites h hscope).bind fun _ _ _ => .pure trivial
  | .interpolation expression :: rest =>
    simp only [subexpressionsOfParts, List.forall_mem_append] at h
    simp only [partsWrite, Part.writes, Bool.or_eq_true] at hwrites
    rw [evaluateParts]
    refine (Expr.evaluate_yields hP expression h.1 hscope).bind fun v hv _ => ?_
    have hwritable := writable_of_evaluate (fun hfixed => hwrites (.inl hfixed)) hv
    refine (interpolatedText?_raises hwritable _).bind fun text _ _ => ?_
    exact (evaluateParts_yields hP span rest (fun hrest => hwrites (.inr hrest)) h.2 hscope).bind
      fun _ _ _ => .pure trivial
  | .directive directive :: rest =>
    simp only [subexpressionsOfParts, List.forall_mem_append] at h
    simp only [partsWrite, Part.writes, Bool.or_eq_true] at hwrites
    rw [evaluateParts]
    refine (Directive.evaluate_yields hP directive (fun hd => hwrites (.inl hd)) h.1 hscope).bind
      fun text _ _ => ?_
    exact (evaluateParts_yields hP span rest (fun hrest => hwrites (.inr hrest)) h.2 hscope).bind
      fun _ _ _ => .pure trivial

theorem Directive.evaluate_yields (hP : Hereditary P) (directive : Directive)
    (hwrites : directive.writes = true → D (.signal .overflow))
    (h : ∀ x ∈ directive.subexpressions, x.Admitted library D P) {scope : Scope}
    (hscope : scope.Gives D P) : Raises D (directive.evaluate library scope) := by
  match directive with
  | .ifElse span condition thenParts elseParts =>
    simp only [Directive.subexpressions, List.forall_mem_append] at h
    simp only [Directive.writes, Bool.or_eq_true] at hwrites
    obtain ⟨⟨hcondition, hthen⟩, helse⟩ := h
    rw [Directive.evaluate]
    refine (Expr.evaluate_yields hP condition hcondition hscope).bind fun c _ _ => ?_
    refine (truth?_raises c _ span).bind fun truth _ _ => ?_
    split
    · exact .pure trivial
    · exact evaluateParts_yields hP span thenParts (fun ht => hwrites (.inl ht)) hthen hscope
    · exact evaluateParts_yields hP span elseParts (fun ht => hwrites (.inr ht)) helse hscope
  | .forEach span collection keyName valueName body =>
    simp only [Directive.subexpressions, List.forall_mem_append] at h
    rw [Directive.evaluate]
    refine (Expr.evaluate_yields hP collection h.1 hscope).bind fun c _ hc => ?_
    refine .ite (fun _ => .pure trivial) fun _ => ?_
    refine (hP.iteration_yields hc span).bind fun pairs _ hpairs => ?_
    refine yields_foldlM trivial fun pair hpair text _ => ?_
    have hinner := hscope.iteration keyName valueName (hpairs pair hpair).1 (hpairs pair hpair).2
    exact (evaluateParts_yields hP span body hwrites h.2 hinner).bind fun _ _ _ => .pure trivial

end

end

end Groundplan
