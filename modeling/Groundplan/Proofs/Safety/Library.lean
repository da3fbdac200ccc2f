import Groundplan.Library.Standard
import Groundplan.Proofs.Safety.Yields

/-!
# Defects of Library Functions

A function of the library raises errors and signals of the arithmetic, and a call turns the signals
into errors.  What remains are three sources of defects: `pow` may be infinite, some functions write
integers into their messages, and `format` reads and writes integers.

## Main Definitions

- `Library.EscapesFrom`: the defects that a call of a function may come to

## Main Statements

- `call_raises`: the standard library comes to no other defects
-/

namespace Groundplan

variable {α : Type} {D : Defect → Prop}

/-! ## Calls -/

/-- Signals of the arithmetic, or other defects in `D`. -/
def SignalOr (D : Defect → Prop) (d : Defect) : Prop :=
  (∃ s, d = .signal s) ∨ D d

/-- A call turns the signals of the function into errors. -/
theorem Function.invoke_yields {P : Value → Prop} {f : Function} {args : List Value}
    (hunknown : P .unknown) (hrun : Yields (SignalOr D) P (f.run args)) (span : Option Span) :
    Yields D P (f.invoke args span) := by
  unfold Function.invoke
  cases f.signature.problem? args with
  | some problem => exact .fail
  | none =>
    dsimp only
    refine .ite (fun _ => .ok hunknown) fun _ => ?_
    match hresult : f.run args with
    | .ok v => exact .ok (hrun.result v hresult)
    | .error (.error e) => exact .ofError
    | .error (.defect d) =>
      -- Any defect but a signal passes through the call.
      have hd := (hrun.defect d hresult).resolve_left
      cases d with
      | signal s => exact .fail
      | binaryOperator | unaryOperator | strayDirective | notFinite | truthValue
        | tooManyDigits =>
        exact .ofDefect (hd fun ⟨_, hs⟩ => by cases hs)

namespace Library

/-- The functions that write or read integers as texts. -/
def digitFunctions : List String :=
  ["slice", "cidrsubnet", "cidrhost", "cidrsubnets", "format"]

/-- The defects that a call of a function may come to. -/
def EscapesFrom (name : String) : Defect → Prop
  | .notFinite _ => name = "pow"
  | .tooManyDigits _ => name ∈ digitFunctions
  | _ => False

theorem raises_ofArithmetic (r : Except Decimal.Signal α) :
    Raises (SignalOr D) (ofArithmetic r) := by
  cases r with
  | ok _ => exact .ok trivial
  | error s => exact .ofDefect (.inl ⟨s, rfl⟩)

theorem raises_writeInt (hD : ∀ given, D (.tooManyDigits given)) (i : Int) :
    Raises (SignalOr D) (writeInt i) := by
  -- The bound is a number of thousands of digits.
  unfold writeInt
  generalize Nat.pow 10 digitLimit = bound
  exact .ite (fun _ => .ofDefect (.inr (hD none))) fun _ => .ok trivial

/-! ## Arguments -/

theorem raises_primitiveText (v : Value) : Raises (SignalOr D) v.primitiveText := by
  cases v with
  | number n => exact raises_ofArithmetic _
  | string | bool => exact .ok trivial
  | null | list | set | map | object | unknown => exact .fail

theorem raises_wholeNumber (function : String) (position : Int) (v : Value) :
    Raises (SignalOr D) (wholeNumber function position v) := by
  have hshown : Raises (SignalOr D) (shownValue v) := raises_ofArithmetic _
  unfold wholeNumber
  split
  · exact .ite (fun _ => .ok trivial) fun _ => hshown.bind fun _ _ _ => .fail
  · exact hshown.bind fun _ _ _ => .fail

theorem raises_wholeNumbers (function : String) (position : Int) (vs : List Value) :
    Raises (SignalOr D) (wholeNumbers function position vs) := by
  induction vs generalizing position with
  | nil => exact .ok trivial
  | cons v vs ih =>
    exact (raises_wholeNumber _ _ v).bind fun _ _ _ => (ih _).bind fun _ _ _ => .pure trivial

theorem raises_texts (function : String) (position : Int) (vs : List Value) :
    Raises (SignalOr D) (texts function position vs) := by
  induction vs with
  | nil => exact .ok trivial
  | cons v vs ih =>
    refine .ite (fun _ => .fail_bind) fun _ => ?_
    exact (raises_primitiveText v).bind fun _ _ _ => ih.bind fun _ _ _ => .pure trivial

theorem raises_numbers (function : String) (position : Int) (vs : List Value) :
    Raises D (numbers function position vs) := by
  induction vs with
  | nil => exact .ok trivial
  | cons v vs ih =>
    cases v with
    | number n => exact ih.bind fun _ _ _ => .pure trivial
    | null | bool | string | list | set | map | object | unknown => exact .fail

/-! ## Functions on collections -/

theorem raises_zipmap (keys values : List Value) :
    Raises (SignalOr D) (zipmap keys values) := by
  refine (raises_texts _ _ keys).bind fun names _ _ => ?_
  exact .ite (fun _ => .fail_bind) fun _ => .pure trivial

theorem raises_lookupKey (fields : List (String × Value)) (key : String)
    (default : Option Value) : Raises D (lookupKey fields key default) := by
  unfold lookupKey
  split
  · exact .ok trivial
  · exact .fail

theorem raises_elementAt (items : List Value) (index : Value) :
    Raises (SignalOr D) (Library.elementAt items index) := by
  refine (raises_wholeNumber _ _ index).bind fun position _ _ => ?_
  refine .ite (fun _ => .fail_bind) fun _ => .ite (fun _ => .fail_bind) fun _ => ?_
  split
  · exact .pure trivial
  · exact .fail

theorem raises_coalesce (args : List Value) : Raises D (coalesce args) := by
  induction args with
  | nil => exact .fail
  | cons arg args ih => exact .ite (fun _ => ih) fun _ => .ok trivial

theorem raises_compact (items : List Value) : Raises D (compact items) := by
  induction items with
  | nil => exact .ok trivial
  | cons item items ih =>
    refine .ite (fun _ => ih) fun _ => .ite (fun _ => .fail_bind) fun _ => ?_
    exact ih.bind fun _ _ _ => .pure trivial

theorem raises_slice (hD : ∀ given, D (.tooManyDigits given)) (items : List Value)
    (start stop : Value) : Raises (SignalOr D) (slice items start stop) := by
  refine (raises_wholeNumber _ _ start).bind fun first _ _ => ?_
  refine (raises_wholeNumber _ _ stop).bind fun last _ _ => ?_
  refine .ite (fun _ => ?_) fun _ => .ite (fun _ => ?_) fun _ => .pure trivial
  · exact (raises_writeInt hD first).bind fun _ _ _ => .fail_bind
  · exact (raises_writeInt hD last).bind fun _ _ _ => .fail_bind

theorem raises_rangeFrom (limit step : Decimal) (room : Nat) (current : Decimal) :
    Raises (SignalOr D) (rangeFrom limit step room current) := by
  induction room generalizing current with
  | zero => exact .ite (fun _ => .ok trivial) fun _ => .fail
  | succ room ih =>
    refine .ite (fun _ => .ok trivial) fun _ => ?_
    refine (raises_ofArithmetic _).bind fun next _ _ => ?_
    exact (ih next).bind fun _ _ _ => .pure trivial

/-- The check and the judgement of the direction come before any number of the range. -/
theorem raises_range (args : List Decimal) : Raises (SignalOr D) (range args) := by
  have hchecked : ∀ start limit step : Decimal, Raises (SignalOr D) (do
      if step.isZero then fail (.functionCall "range" "step must not be zero") none
      let distance ← ofArithmetic (Decimal.Context.coarse.subtract limit start)
      let direction ← ofArithmetic (Decimal.Context.coarse.multiply distance step)
      if direction.sign < 0 then return []
      rangeFrom limit step rangeLimit start) := by
    intro start limit step
    refine .ite (fun _ => .fail_bind) fun _ => ?_
    refine (raises_ofArithmetic _).bind fun distance _ _ => ?_
    refine (raises_ofArithmetic _).bind fun direction _ _ => ?_
    exact .ite (fun _ => .pure trivial) fun _ => raises_rangeFrom _ _ _ _
  match args with
  | [limit] => exact hchecked (Decimal.ofNat 0) limit (Decimal.ofNat 1)
  | [start, limit] =>
    exact hchecked start limit
      (if limit.less start then (Decimal.ofNat 1).negate else Decimal.ofNat 1)
  | [start, limit, step] => exact hchecked start limit step
  | [] | _ :: _ :: _ :: _ :: _ => exact .fail_bind

theorem raises_lengthOf (v : Value) : Raises D (lengthOf v) := by
  unfold lengthOf
  split
  · exact .ok trivial
  · split
    · exact .ok trivial
    · exact .fail

/-! ## Functions on numbers and conversions -/

theorem raises_total (items : List Value) : Raises (SignalOr D) (total items) := by
  refine .ite (fun _ => .fail_bind) fun _ => (raises_numbers _ _ items).bind fun ns _ _ => ?_
  exact yields_foldlM trivial fun _ _ _ _ => raises_ofArithmetic _

theorem raises_raise (hD : ∀ shown, D (.notFinite shown))
    (power : Decimal → Decimal → Except Decimal.Refusal Decimal) (base exponent : Decimal) :
    Raises (SignalOr D) (raise power base exponent) := by
  unfold raise
  split
  · exact .ok trivial
  · exact .ofDefect (.inl ⟨_, rfl⟩)
  · exact .ofDefect (.inr (hD _))

theorem raises_toNumberValue (v : Value) : Raises (SignalOr D) v.toNumberValue := by
  cases v with
  | string s =>
    refine Yields.map (P := fun _ => True) ?_ fun _ _ => trivial
    unfold Value.numberOfText
    refine .ite (fun _ => ?_) fun _ => .fail
    split
    · exact .ok trivial
    · exact .ofDefect (.inl ⟨_, rfl⟩)
  | null | number | unknown => exact .ok trivial
  | bool | list | set | map | object => exact .fail

theorem raises_toBoolValue (v : Value) : Raises D v.toBoolValue := by
  cases v with
  | string s =>
    exact .ite (fun _ => .ok trivial) fun _ => .ite (fun _ => .ok trivial) fun _ => .fail
  | null | bool | unknown => exact .ok trivial
  | number | list | set | map | object => exact .fail

theorem raises_toMapValue (v : Value) : Raises D v.toMapValue := by
  cases v with
  | object fields => exact .ite (fun _ => .fail) fun _ => .ok trivial
  | null | map | unknown => exact .ok trivial
  | bool | number | string | list | set => exact .fail

theorem raises_toStringValue (v : Value) : Raises (SignalOr D) v.toStringValue := by
  cases v with
  | number n =>
    exact Yields.map (f := Value.string) (raises_primitiveText (.number n)) fun _ _ => trivial
  | null | bool | string | unknown => exact .ok trivial
  | list | set | map | object => exact .fail

theorem raises_toListValue (v : Value) : Raises D v.toListValue := by
  cases v with
  | null | list | set | unknown => exact .ok trivial
  | bool | number | string | map | object => exact .fail

theorem raises_toSetValue (v : Value) : Raises D v.toSetValue := by
  cases v with
  | null | list | set | unknown => exact .ok trivial
  | bool | number | string | map | object => exact .fail

/-! ## Functions on texts -/

theorem raises_textsOfAll (position : Int) (lists : List Value) :
    Raises (SignalOr D) (textsOfAll position lists) := by
  induction lists generalizing position with
  | nil => exact .ok trivial
  | cons list lists ih =>
    exact (raises_texts _ _ _).bind fun _ _ _ => (ih _).bind fun _ _ _ => .pure trivial

theorem raises_replaceText (s search replacement : String) :
    Raises D (replaceText s search replacement) := by
  unfold replaceText
  split
  · exact .ok trivial
  · split
    · exact .ok trivial
    · exact .fail
    · exact .fail

theorem raises_substring (s : String) (offset length : Value) :
    Raises (SignalOr D) (substring s offset length) := by
  refine (raises_wholeNumber _ _ offset).bind fun start _ _ => ?_
  refine (raises_wholeNumber _ _ length).bind fun count _ _ => ?_
  refine .ite (fun _ => .fail_bind) fun _ => .ite (fun _ => .pure trivial) fun _ => ?_
  exact .ite (fun _ => .fail_bind) fun _ => .pure trivial

/-! ## Functions on network prefixes -/

theorem raises_networkBlock (function written : String) :
    Raises D (networkBlock function written) := by
  unfold networkBlock
  refine .ite (fun _ => .fail) fun _ => ?_
  split
  · exact .ok trivial
  · exact .fail

theorem raises_subnet (hD : ∀ given, D (.tooManyDigits given)) (written : String)
    (newBits number : Int) : Raises (SignalOr D) (subnet written newBits number) := by
  refine (raises_networkBlock _ _).bind fun block _ _ => ?_
  refine .ite (fun _ => ?_) fun _ => .ite (fun _ => ?_) fun _ => .ite (fun _ => ?_) fun _ => ?_
  · exact (raises_writeInt hD newBits).bind fun _ _ _ => .fail_bind
  · exact (raises_writeInt hD newBits).bind fun _ _ _ => .fail_bind
  · exact (raises_writeInt hD number).bind fun _ _ _ => .fail_bind
  · exact .pure trivial

theorem raises_host (hD : ∀ given, D (.tooManyDigits given)) (written : String)
    (number : Int) : Raises (SignalOr D) (host written number) := by
  refine (raises_networkBlock _ _).bind fun block _ _ => ?_
  split
  · exact .pure trivial
  · exact (raises_writeInt hD number).bind fun _ _ _ => .fail

theorem raises_netmask (written : String) : Raises D (netmask written) := by
  refine (raises_networkBlock _ _).bind fun block _ _ => ?_
  split
  · exact .pure trivial
  · exact .fail

theorem raises_subnets (hD : ∀ given, D (.tooManyDigits given)) (written : String)
    (newBits : List Int) : Raises (SignalOr D) (subnets written newBits) := by
  refine (raises_networkBlock _ _).bind fun block _ _ => ?_
  split
  · exact .pure trivial
  · split
    · exact (raises_writeInt hD _).bind fun _ _ _ => .fail
    · exact (raises_writeInt hD _).bind fun _ _ _ => .fail
    · exact .fail

/-! ## Formats -/

theorem raises_readCount (hD : ∀ given, D (.tooManyDigits given)) (digits : List Char) :
    Raises (SignalOr D) (readCount digits) :=
  .ite (fun _ => .ofDefect (.inr (hD _))) fun _ => .ok trivial

theorem raises_readPlaces (hD : ∀ given, D (.tooManyDigits given)) (digits : List Char) :
    Raises (SignalOr D) (readPlaces digits) := by
  refine .ite (fun _ => ?_) fun _ => raises_readCount hD digits
  exact .ite (fun _ => .ofDefect (.inr (hD _))) fun _ => .ok trivial

theorem raises_numberOf (arg : Value) : Raises (SignalOr D) (numberOf arg) := by
  refine (raises_toNumberValue arg).bind fun v _ _ => ?_
  split
  · exact .pure trivial
  · exact .fail

theorem raises_checkPlaces (places : Nat) : Raises D (checkPlaces places) :=
  .ite (fun _ => .fail) fun _ => .ok trivial

/-- The precision of `%v` and `%s` counts characters. -/
private theorem raises_cut (hD : ∀ given, D (.tooManyDigits given)) (d : Verb) (text : String) :
    Raises (SignalOr D) (match d.precision with
      | none => (pure text : Outcome String)
      | some digits => do return String.ofList (text.toList.take (← readCount digits))) := by
  split
  · exact .pure trivial
  · exact (raises_readCount hD _).bind fun _ _ _ => .pure trivial

theorem raises_formatBare (hD : ∀ given, D (.tooManyDigits given)) (d : Verb) (arg : Value) :
    Raises (SignalOr D) (formatBare d arg) := by
  unfold formatBare
  refine .ite (fun _ => .fail_bind) fun _ => ?_
  dsimp only
  split
  case h_1 | h_2 =>
    have hcut := raises_cut hD d
    refine .ite (fun _ => (raises_primitiveText arg).bind fun text _ _ => hcut text) fun _ => ?_
    refine .ite (fun _ => (raises_ofArithmetic _).bind fun text _ _ => hcut text) fun _ => ?_
    exact .fail_bind
  case h_3 =>
    refine .ite (fun _ => .fail_bind) fun _ => ?_
    exact (raises_primitiveText arg).bind fun _ _ _ => .pure trivial
  case h_4 =>
    split
    · exact .pure trivial
    · exact .fail
  case h_5 =>
    refine (raises_numberOf arg).bind fun n _ _ => .ite (fun _ => ?_) fun _ => ?_
    · exact (raises_ofArithmetic _).bind fun _ _ _ => .fail_bind
    · exact (raises_writeInt hD _).bind fun _ _ _ => .pure trivial
  case h_6 | h_7 | h_8 =>
    refine (raises_numberOf arg).bind fun n _ _ => ?_
    refine (raises_readPlaces hD _).bind fun places _ _ => .ite (fun _ => .pure trivial) fun _ => ?_
    exact (raises_checkPlaces places).bind fun _ _ _ => .pure trivial
  case h_9 | h_10 | h_11 | h_12 =>
    refine (raises_numberOf arg).bind fun n _ _ => ?_
    exact .ite (fun _ => .fail_bind) fun _ => .pure trivial
  case h_13 => exact .fail

theorem raises_formatArgument (hD : ∀ given, D (.tooManyDigits given)) (d : Verb)
    (arg : Value) : Raises (SignalOr D) (formatArgument d arg) := by
  refine (raises_formatBare hD d arg).bind fun text _ _ => ?_
  split
  · exact .pure trivial
  · refine (raises_readCount hD _).bind fun width _ _ => .ite (fun _ => .pure trivial) fun _ => ?_
    exact (raises_checkPlaces _).bind fun _ _ _ => .pure trivial

theorem raises_argumentIndex (hD : ∀ given, D (.tooManyDigits given)) (d : Verb) (next : Nat) :
    Raises (SignalOr D) (argumentIndex d next) := by
  unfold argumentIndex
  split
  · exact .ok trivial
  · refine (raises_readCount hD _).bind fun n _ _ => ?_
    split <;> exact .pure trivial

theorem raises_formatFrom (hD : ∀ given, D (.tooManyDigits given)) (args : List Value)
    (fuel offset next : Nat) (cs : List Char) :
    Raises (SignalOr D) (formatFrom args fuel offset next cs) := by
  induction fuel generalizing offset next cs with
  | zero => exact .ok trivial
  | succ fuel ih =>
    cases cs with
    | nil => exact .ok trivial
    | cons c cs =>
      unfold formatFrom
      split
      · exact (ih _ _ _).bind fun _ _ _ => .pure trivial
      · refine .ite (fun _ => (ih _ _ _).bind fun _ _ _ => .pure trivial) fun _ => ?_
        refine (raises_argumentIndex hD _ _).bind fun index _ _ => ?_
        split
        · exact .fail
        · refine (raises_formatArgument hD _ _).bind fun text _ _ => ?_
          exact (ih _ _ _).bind fun _ _ _ => .pure trivial

theorem raises_format (hD : ∀ given, D (.tooManyDigits given)) (spec : String)
    (args : List Value) : Raises (SignalOr D) (format spec args) :=
  (raises_formatFrom hD args _ _ _ _).bind fun _ _ _ => .pure trivial

end Library

/-! ## The standard library -/

/-- The defects of a function are signals and those that its name stands for. -/
def Function.IsContained (f : Function) : Prop :=
  ∀ args, Raises (SignalOr (Library.EscapesFrom f.signature.name)) (f.run args)

namespace Library

theorem collectionFunctions_contained : ∀ f ∈ collectionFunctions, f.IsContained := by
  have hslice : ∀ given, EscapesFrom "slice" (.tooManyDigits given) := fun _ => by
    simp [EscapesFrom, digitFunctions]
  simp only [collectionFunctions, List.forall_mem_cons, List.not_mem_nil, false_imp_iff,
    implies_true, and_true]
  refine ⟨?merge, ?flatten, ?distinct, ?concat, ?lookup, ?zipmap, ?length, ?keys, ?values,
    ?contains, ?element, ?coalesce, ?compact, ?range, ?slice, ?reverse, ?sort⟩ <;>
    intro args <;> dsimp only
  case merge | concat => exact .ok trivial
  case flatten | distinct | keys | values | contains | reverse =>
    split
    · exact .ok trivial
    · exact .fail
  case lookup =>
    split
    · exact raises_lookupKey _ _ _
    · exact raises_lookupKey _ _ _
    · exact .fail
  case zipmap =>
    split
    · exact raises_zipmap _ _
    · exact .fail
  case length =>
    split
    · exact raises_lengthOf _
    · exact .fail
  case element =>
    split
    · exact raises_elementAt _ _
    · exact .fail
  case coalesce => exact raises_coalesce args
  case compact =>
    split
    · exact (raises_compact _).map fun _ _ => trivial
    · exact .fail
  case range =>
    refine (raises_numbers _ _ args).bind fun ns _ _ => ?_
    exact (raises_range ns).bind fun _ _ _ => .pure trivial
  case slice =>
    split
    · exact raises_slice hslice _ _ _
    · exact .fail
  case sort =>
    split
    · exact (raises_texts _ _ _).bind fun _ _ _ => .pure trivial
    · exact .fail

theorem numberFunction_contained {name : String} {run : Decimal → Outcome Decimal}
    (hrun : ∀ n, Raises (SignalOr (EscapesFrom name)) (run n)) :
    (numberFunction name run).IsContained := by
  intro args
  unfold numberFunction
  dsimp only
  split
  · exact (hrun _).map fun _ _ => trivial
  · exact .fail

theorem pickFunction_contained (name : String) (pick : Decimal → List Decimal → Decimal) :
    (pickFunction name pick).IsContained := by
  intro args
  refine (raises_numbers _ _ args).bind fun ns _ _ => ?_
  split
  · exact .pure trivial
  · exact .fail

theorem powerFunction_contained (power : Decimal → Decimal → Except Decimal.Refusal Decimal) :
    (powerFunction power).IsContained := by
  have hpow : ∀ shown, EscapesFrom "pow" (.notFinite shown) := fun _ => rfl
  intro args
  unfold powerFunction
  dsimp only
  split
  · exact (raises_raise hpow power _ _).map fun _ _ => trivial
  · exact .fail

theorem numericFunctions_contained : ∀ f ∈ numericFunctions, f.IsContained := by
  simp only [numericFunctions, List.forall_mem_cons, List.not_mem_nil, false_imp_iff,
    implies_true, and_true]
  refine ⟨pickFunction_contained _ _, pickFunction_contained _ _,
    numberFunction_contained fun n => raises_ofArithmetic _,
    numberFunction_contained fun n => .ok trivial,
    numberFunction_contained fun n => .ok trivial, powerFunction_contained _,
    numberFunction_contained fun n => .ok trivial, ?_⟩
  intro args
  dsimp only
  split
  · exact (raises_total _).map fun _ _ => trivial
  · exact .fail

theorem textFunction_contained (name : String) (run : String → String) :
    (textFunction name run).IsContained := by
  intro args
  unfold textFunction
  dsimp only
  split
  · exact .ok trivial
  · exact .fail

theorem textFunctions_contained : ∀ f ∈ textFunctions, f.IsContained := by
  simp only [textFunctions, List.forall_mem_cons, List.not_mem_nil, false_imp_iff,
    implies_true, and_true]
  refine ⟨textFunction_contained _ _, textFunction_contained _ _, textFunction_contained _ _,
    ?join, ?split, ?replace, ?substr⟩ <;> intro args <;> dsimp only
  case join =>
    split
    · exact (raises_textsOfAll _ _).bind fun _ _ _ => .pure trivial
    · exact .fail
  case split =>
    split
    · exact .ok trivial
    · exact .fail
  case replace =>
    split
    · exact (raises_replaceText _ _ _).map fun _ _ => trivial
    · exact .fail
  case substr =>
    split
    · exact (raises_substring _ _ _).map fun _ _ => trivial
    · exact .fail

theorem formatFunction_contained : formatFunction.IsContained := by
  intro args
  unfold formatFunction
  dsimp only
  split
  · refine (raises_format (fun given => ?_) _ _).map fun _ _ => trivial
    simp [EscapesFrom, digitFunctions]
  · exact .fail

theorem conversionFunction_contained {name : String} {policy : UnknownPolicy}
    {run : Value → Outcome Value}
    (hrun : ∀ v, Raises (SignalOr (EscapesFrom name)) (run v)) :
    (conversionFunction name policy run).IsContained := by
  intro args
  unfold conversionFunction
  dsimp only
  split
  · exact hrun _
  · exact .fail

theorem conversionFunctions_contained : ∀ f ∈ conversionFunctions, f.IsContained := by
  simp only [conversionFunctions, List.forall_mem_cons, List.not_mem_nil, false_imp_iff,
    implies_true, and_true]
  exact ⟨conversionFunction_contained raises_toStringValue,
    conversionFunction_contained raises_toNumberValue,
    conversionFunction_contained raises_toBoolValue,
    conversionFunction_contained raises_toListValue,
    conversionFunction_contained raises_toSetValue,
    conversionFunction_contained raises_toMapValue,
    conversionFunction_contained fun v => (raises_ofArithmetic _).map fun _ _ => trivial⟩

theorem networkFunctions_contained : ∀ f ∈ networkFunctions, f.IsContained := by
  have hdigits : ∀ name ∈ digitFunctions, ∀ given, EscapesFrom name (.tooManyDigits given) :=
    fun name hname _ => hname
  simp only [networkFunctions, List.forall_mem_cons, List.not_mem_nil, false_imp_iff,
    implies_true, and_true]
  refine ⟨?subnet, ?host, ?netmask, ?subnets⟩ <;> intro args <;> dsimp only
  case subnet =>
    split
    · refine (raises_wholeNumber _ _ _).bind fun newBits _ _ => ?_
      refine (raises_wholeNumber _ _ _).bind fun number _ _ => ?_
      exact (raises_subnet (hdigits _ (by decide)) _ _ _).bind fun _ _ _ => .pure trivial
    · exact .fail
  case host =>
    split
    · refine (raises_wholeNumber _ _ _).bind fun number _ _ => ?_
      exact (raises_host (hdigits _ (by decide)) _ _).bind fun _ _ _ => .pure trivial
    · exact .fail
  case netmask =>
    split
    · exact (raises_netmask _).map fun _ _ => trivial
    · exact .fail
  case subnets =>
    split
    · refine (raises_wholeNumbers _ _ _).bind fun newBits _ _ => ?_
      exact (raises_subnets (hdigits _ (by decide)) _ _).bind fun _ _ _ => .pure trivial
    · exact .fail

theorem standard_contained : ∀ f ∈ standard, f.IsContained := by
  simp only [standard, List.forall_mem_append, List.forall_mem_singleton]
  exact ⟨⟨⟨⟨⟨collectionFunctions_contained, numericFunctions_contained⟩,
    textFunctions_contained⟩, formatFunction_contained⟩, conversionFunctions_contained⟩,
    networkFunctions_contained⟩

/-- A call of the standard library comes to no defects but those of the function's name. -/
theorem call_raises (name : String) (args : List Value) (span : Option Span) :
    Raises (EscapesFrom name) (standard.call name args span) := by
  unfold call
  cases hfound : standard.find? name with
  | none => exact .fail
  | some f =>
    have hmem : f ∈ standard := List.mem_reverse.mp (List.mem_of_find?_eq_some hfound)
    have hname : f.signature.name = name := by
      simpa using List.find?_some hfound
    exact Function.invoke_yields trivial (hname ▸ standard_contained f hmem args) span

end Library

end Groundplan
