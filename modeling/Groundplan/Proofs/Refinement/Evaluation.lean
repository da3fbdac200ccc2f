import Groundplan.Proofs.Evaluation
import Groundplan.Proofs.Refinement.Library
import Groundplan.Proofs.Refinement.Operation
import Mathlib

/-!
# Unknown Is Conservative

If a scope is refined by another one, so is the value of every expression that does not call
`try` or `can`: whatever the evaluation in the refined scope yields refines what it yields in
the original one, and whatever fails originally fails still.  The calls `try` and `can` are
left out because they turn a later failure into another value.

The proof relates two runs of the evaluator.  Their states differ where the original run has
stopped deciding: a comprehension with an undecided turn, an object with an unknown key.  The
relations on these states say nothing about what such a run has collected except that the
refined run has seen all of its keys, so that a repeated key fails there too.

## Main Definitions

- `Scope.RefinedBy`, `Turn.RefinedBy`, `Harvest.RefinedBy`, `Collected`

## Main Statements

- `Expr.evaluate_foresees`: the simulation
- `evaluate_refines_of_lookups_refine`: what it says about values and failures
-/

namespace Groundplan

open Value

/-! ## Scopes -/

/-- Every look-up that succeeds in the second scope refines that of the first scope. -/
def Scope.RefinedBy (s t : Scope) : Prop :=
  ∀ path span, Foresees Value.RefinedBy (s.lookup path span) (t.lookup path span)

namespace Scope.RefinedBy

variable {s t : Scope}

/-- Frames that bind the same symbols to refined values keep scopes refined. -/
theorem child (h : Scope.RefinedBy s t) {bindings bindings' : List (SymbolPath × Value)}
    (hbindings : Table.Related Value.RefinedBy bindings bindings') :
    Scope.RefinedBy (s.child bindings) (t.child bindings') := by
  intro path span
  have hget := hbindings.ofList.get? path
  cases hs : Table.get? (Table.ofList bindings) path with
  | none =>
    cases ht : Table.get? (Table.ofList bindings') path with
    | none =>
      rw [lookup_child_of_unbound s span hs, lookup_child_of_unbound t span ht]
      exact h path span
    | some w =>
      rw [hs, ht] at hget
      cases hget
  | some v =>
    cases ht : Table.get? (Table.ofList bindings') path with
    | none =>
      rw [hs, ht] at hget
      cases hget
    | some w =>
      rw [hs, ht] at hget
      rw [lookup_child_of_bound s span hs, lookup_child_of_bound t span ht]
      cases hget with
      | some hvalue => exact .ok hvalue

theorem iteration (h : Scope.RefinedBy s t) (keyName : Option String) (valueName : String)
    {key key' value value' : Value} (hkey : key' = key) (hvalue : Value.RefinedBy value value') :
    Scope.RefinedBy (iterationScope s keyName valueName key value)
      (iterationScope t keyName valueName key' value') := by
  subst hkey
  refine h.child (.cons _ hvalue ?_)
  cases keyName with
  | none => exact .nil
  | some name => exact .cons _ (.refl key') .nil

end Scope.RefinedBy

/-! ## Comprehensions -/

/-- An undecided turn may become any other one; what is put down is refined. -/
inductive Turn.RefinedBy : Turn → Turn → Prop where
  | undecided (turn : Turn) : RefinedBy .undecided turn
  | skipped : RefinedBy .skipped .skipped
  | item {v w : Value} : Value.RefinedBy v w → RefinedBy (.item v) (.item w)
  | entry (key : String) {v w : Value} :
      Value.RefinedBy v w → RefinedBy (.entry key v) (.entry key w)

/-- Every key collected in one run is collected in the refined run; while the first run is
decided, so is the other one, and it has collected refined values. -/
structure Harvest.RefinedBy (h h' : Harvest) : Prop where
  keys : ∀ key, Table.has h.entries key = true → Table.has h'.entries key = true
  decided : h.undecided = false → h'.undecided = false
  items : h.undecided = false → ItemsRefinedBy h.items h'.items
  entries : h.undecided = false → Table.Related ItemsRefinedBy h.entries h'.entries

namespace Harvest

variable {h h' : Harvest}

/-- Whatever a turn adds, the keys collected before are still there. -/
private theorem has_of_add {grouping : Bool} {span : Option Span} {turn : Turn}
    (hadd : h.add grouping span turn = .ok h') (key : String)
    (hkey : Table.has h.entries key = true) : Table.has h'.entries key = true := by
  cases turn with
  | skipped | undecided | item v =>
    cases hadd
    exact hkey
  | entry name v =>
    simp only [add] at hadd
    split at hadd
    · cases hadd
      exact (Table.has_put_iff _ _ _ _).mpr (.inr hkey)
    · split at hadd
      · cases hadd
        exact (Table.has_put_iff _ _ _ _).mpr (.inr hkey)
      · cases hadd

/-- Storing under one key in both runs keeps their collections related. -/
private theorem RefinedBy.put (hrefined : RefinedBy h h') (key : String)
    {values values' : List Value} (hvalues : h.undecided = false → ItemsRefinedBy values values') :
    RefinedBy { h with entries := Table.put h.entries key values }
      { h' with entries := Table.put h'.entries key values' } := by
  refine ⟨fun other hother => ?_, hrefined.decided, hrefined.items, fun hdecided => ?_⟩
  · rcases (Table.has_put_iff _ _ _ _).mp hother with hkey | hother
    · exact (Table.has_put_iff _ _ _ _).mpr (.inl hkey)
    · exact (Table.has_put_iff _ _ _ _).mpr (.inr (hrefined.keys other hother))
  · exact (hrefined.entries hdecided).put key (hvalues hdecided)

/-- A turn of both runs keeps their collections related. -/
theorem add_foresees (hrefined : RefinedBy h h') (grouping : Bool) (span : Option Span)
    {turn turn' : Turn} (hturn : Turn.RefinedBy turn turn') :
    Foresees RefinedBy (h.add grouping span turn) (h'.add grouping span turn') := by
  cases hturn with
  | undecided =>
    intro after hafter
    refine ⟨_, rfl, ?_, nofun, nofun, nofun⟩
    exact fun key hkey => has_of_add hafter key (hrefined.keys key hkey)
  | skipped => exact .ok hrefined
  | item hvalue =>
    refine .ok ⟨hrefined.keys, hrefined.decided, fun hdecided => ?_, hrefined.entries⟩
    exact (hrefined.items hdecided).append (.cons hvalue .nil)
  | entry key hvalue =>
    have hget := fun hdecided => (hrefined.entries hdecided).get? key
    have hhas := hrefined.keys key
    unfold Table.has at hhas
    simp only [add]
    cases hfound' : Table.get? h'.entries key with
    | none =>
      -- A key that the refined run has not seen is new to the other run as well.
      cases hfound : Table.get? h.entries key with
      | some earlier => simp [hfound, hfound'] at hhas
      | none => exact .ok (hrefined.put key fun _ => .cons hvalue .nil)
    | some earlier' =>
      cases grouping with
      | false => exact .error _ _
      | true =>
        rw [hfound'] at hget
        cases hfound : Table.get? h.entries key with
        | none =>
          refine .ok (hrefined.put key fun hdecided => ?_)
          have hnone := hget hdecided
          rw [hfound] at hnone
          cases hnone
        | some earlier =>
          refine .ok (hrefined.put key fun hdecided => ?_)
          have hsome := hget hdecided
          rw [hfound] at hsome
          cases hsome with
          | some hearlier => exact hearlier.append (.cons hvalue .nil)

theorem empty_refinedBy : RefinedBy empty empty :=
  ⟨fun _ hkey => hkey, fun hdecided => hdecided, fun _ => .nil, fun _ => .nil⟩

/-- The entries of a result without groups. -/
private theorem flatEntries_refinedBy {t u : Table String (List Value)}
    (htables : Table.Related ItemsRefinedBy t u) :
    Table.Related Value.RefinedBy
      (t.flatMap fun entry => entry.2.map (entry.1, ·))
      (u.flatMap fun entry => entry.2.map (entry.1, ·)) := by
  induction htables with
  | nil => exact .nil
  | @cons key vs ws _ _ hvalues _ ih =>
    refine Table.Related.append ?_ ih
    induction vs generalizing ws with
    | nil => cases hvalues; exact .nil
    | cons v vs ihvs =>
      cases hvalues with
      | cons hhead htail => exact .cons key hhead (ihvs htail)

/-- Only a run that is decided has a known result. -/
theorem result_refinedBy (hrefined : RefinedBy h h') (keyed grouping : Bool) :
    Value.RefinedBy (h.result keyed grouping) (h'.result keyed grouping) := by
  unfold result
  cases hdecided : h.undecided with
  | true => exact .unknown _
  | false =>
    rw [hrefined.decided hdecided]
    cases keyed with
    | false => exact .list (hrefined.items hdecided)
    | true =>
      have hentries := hrefined.entries hdecided
      cases grouping with
      | true =>
        refine .map (fieldsRefinedBy_iff.mpr ?_)
        exact hentries.map fun values values' hvalues => .list hvalues
      | false => exact .map (fieldsRefinedBy_iff.mpr (flatEntries_refinedBy hentries))

end Harvest

/-! ## Expressions without `try` and `can` -/

/-- Neither `try` nor `can` is among the functions called. -/
def AbsorbsNothing (calls : List String) : Prop :=
  "try" ∉ calls ∧ "can" ∉ calls

namespace AbsorbsNothing

variable {calls others : List String}

theorem left (h : AbsorbsNothing (calls ++ others)) : AbsorbsNothing calls :=
  ⟨fun hmem => h.1 (List.mem_append_left others hmem),
    fun hmem => h.2 (List.mem_append_left others hmem)⟩

theorem right (h : AbsorbsNothing (calls ++ others)) : AbsorbsNothing others :=
  ⟨fun hmem => h.1 (List.mem_append_right calls hmem),
    fun hmem => h.2 (List.mem_append_right calls hmem)⟩

/-- The function called first is neither, and neither is among the others. -/
theorem cons {function : String} (h : AbsorbsNothing (function :: calls)) :
    (function ≠ "try" ∧ function ≠ "can") ∧ AbsorbsNothing calls := by
  refine ⟨⟨?_, ?_⟩, ?_, ?_⟩
  · rintro rfl
    exact h.1 (by simp)
  · rintro rfl
    exact h.2 (by simp)
  · exact fun hmem => h.1 (List.mem_cons_of_mem function hmem)
  · exact fun hmem => h.2 (List.mem_cons_of_mem function hmem)

end AbsorbsNothing

/-- The functions that a comprehension calls, part by part. -/
theorem calls_comprehension (span : Option Span) (collection : Expr)
    (keyName : Option String) (valueName : String) (filter key : Option Expr) (value : Expr)
    (grouping : Bool) :
    (Expr.comprehension span collection keyName valueName filter key value grouping).calls
      = collection.calls ++ value.calls ++ key.elim [] Expr.calls
        ++ filter.elim [] Expr.calls := by
  cases filter <;> cases key <;> simp [Expr.calls]

/-- The fields collected by two runs: every key collected by the first run is collected by the
other one, and while the first one is decided the other is, with refined fields. -/
structure Collected (undecided undecided' : Bool) (earlier earlier' : Table String Value) :
    Prop where
  keys : ∀ key, Table.has earlier key = true → Table.has earlier' key = true
  decided : undecided = false → undecided' = false
  fields : undecided = false → FieldsRefinedBy earlier earlier'

theorem Collected.put {undecided undecided' : Bool} {earlier earlier' : Table String Value}
    (h : Collected undecided undecided' earlier earlier') (name : String) {v w : Value}
    (hvw : Value.RefinedBy v w) :
    Collected undecided undecided' (Table.put earlier name v) (Table.put earlier' name w) := by
  refine ⟨fun other hother => ?_, h.decided, fun hdecided => ?_⟩
  · rcases (Table.has_put_iff _ _ _ _).mp hother with hkey | hother
    · exact (Table.has_put_iff _ _ _ _).mpr (.inl hkey)
    · exact (Table.has_put_iff _ _ _ _).mpr (.inr (h.keys other hother))
  · exact fieldsRefinedBy_iff.mpr ((h.fields hdecided).related.put name hvw)

/-- The fields of an object are unknown, or refined. -/
def FieldsForeseen (fs gs : Option (Table String Value)) : Prop :=
  fs = none ∨ ∃ fields fields', fs = some fields ∧ gs = some fields'
    ∧ FieldsRefinedBy fields fields'

/-! ## The simulation -/

section Simulation

variable {library : Library} {s t : Scope}

theorem keepsElement_foresees (span : Option Span) {filter : Expr}
    (hfilter : Foresees Value.RefinedBy (filter.evaluate library s) (filter.evaluate library t)) :
    Foresees SettledBy (keepsElement library span (some filter) s)
      (keepsElement library span (some filter) t) :=
  hfilter.bind fun _ _ hvw => truth?_foresees _ span hvw

theorem contribution_foresees (span : Option Span) {key value : Expr}
    (hkey : Foresees Value.RefinedBy (key.evaluate library s) (key.evaluate library t))
    (hvalue : Foresees Value.RefinedBy (value.evaluate library s) (value.evaluate library t)) :
    Foresees Turn.RefinedBy (contribution library span (some key) value s)
      (contribution library span (some key) value t) := by
  refine hkey.bind fun k l hkl => hvalue.bind fun v w hvw => ?_
  cases hk : k.isUnknown with
  | true => exact .of_forall _ .undecided
  | false =>
    rw [hkl.isUnknown_eq_false hk]
    refine (keyText_foresees span hkl hk).bind ?_
    rintro text _ rfl
    exact .ok (.entry text hvw)

/-- One turn of a comprehension, given what its parts foresee. -/
theorem elementTurn_foresees (span : Option Span) {filter key : Option Expr} {value : Expr}
    (hkept : Foresees SettledBy (keepsElement library span filter s)
      (keepsElement library span filter t))
    (hcontribution : Foresees Turn.RefinedBy (contribution library span key value s)
      (contribution library span key value t)) :
    Foresees Turn.RefinedBy (elementTurn library span filter key value s)
      (elementTurn library span filter key value t) := by
  refine hkept.bind ?_
  rintro _ kept (rfl | rfl)
  · exact .of_forall _ .undecided
  · rcases kept with _ | _ | _
    · exact .ok (.undecided _)
    · exact .ok .skipped
    · exact hcontribution

mutual

/-- Evaluation in a scope foresees evaluation in a refined scope. -/
theorem Expr.evaluate_foresees (hlibrary : ∀ f ∈ library, f.Foreseeing) (e : Expr) {s t : Scope}
    (h : Scope.RefinedBy s t) (hcalls : AbsorbsNothing e.calls) :
    Foresees Value.RefinedBy (e.evaluate library s) (e.evaluate library t) := by
  match e with
  | .literal _ v =>
    simp only [Expr.evaluate]
    exact .ok (.refl v)
  | .ref span path =>
    simp only [Expr.evaluate]
    exact h path span
  | .index span collection key =>
    simp only [Expr.calls] at hcalls
    simp only [Expr.evaluate]
    refine (Expr.evaluate_foresees hlibrary collection h hcalls.left).bind fun v w hvw => ?_
    refine (Expr.evaluate_foresees hlibrary key h hcalls.right).bind fun k l hkl => ?_
    exact element_foresees span hvw hkl
  | .access span target name =>
    simp only [Expr.calls] at hcalls
    simp only [Expr.evaluate]
    refine (Expr.evaluate_foresees hlibrary target h hcalls).bind fun v w hvw => ?_
    exact field_foresees name span hvw
  | .call span function arguments =>
    simp only [Expr.calls] at hcalls
    -- What is called is neither `try` nor `can`, so that all arguments are evaluated.
    obtain ⟨⟨htry, hcan⟩, harguments⟩ := hcalls.cons
    rw [evaluate_call library span arguments s htry hcan,
      evaluate_call library span arguments t htry hcan]
    refine (evaluateAll_foresees hlibrary arguments h harguments).bind fun vs ws hvs => ?_
    exact Library.call_foresees hlibrary function hvs span
  | .conditional span condition whenTrue whenFalse =>
    simp only [Expr.calls] at hcalls
    simp only [Expr.evaluate]
    have hcondition := Expr.evaluate_foresees hlibrary condition h hcalls.left.left
    refine hcondition.bind fun v w hvw => (truth?_foresees _ span hvw).bind ?_
    rintro _ truth (rfl | rfl)
    · -- An undecided condition makes the value unknown, whichever branch is taken later.
      exact .of_forall _ .unknown
    · rcases truth with _ | _ | _
      · exact .ok (.unknown _)
      · exact Expr.evaluate_foresees hlibrary whenFalse h hcalls.right
      · exact Expr.evaluate_foresees hlibrary whenTrue h hcalls.left.right
  | .binary span operator left right =>
    simp only [Expr.calls] at hcalls
    simp only [Expr.evaluate]
    refine (Expr.evaluate_foresees hlibrary left h hcalls.left).bind fun v w hvw => ?_
    refine (Expr.evaluate_foresees hlibrary right h hcalls.right).bind fun v' w' hvw' => ?_
    exact operator.applyBinary_foresees span hvw hvw'
  | .unary span operator operand =>
    simp only [Expr.calls] at hcalls
    simp only [Expr.evaluate]
    refine (Expr.evaluate_foresees hlibrary operand h hcalls).bind fun v w hvw => ?_
    exact operator.applyUnary_foresees span hvw
  | .list _ items =>
    simp only [Expr.calls] at hcalls
    simp only [Expr.evaluate]
    exact (evaluateAll_foresees hlibrary items h hcalls).map fun vs ws hvs => .list hvs
  | .object span items =>
    simp only [Expr.calls] at hcalls
    simp only [Expr.evaluate]
    have hstart : Collected false false [] [] := ⟨fun _ hkey => hkey, fun _ => rfl, fun _ => .nil⟩
    refine (evaluateFields_foresees hlibrary span items hstart h hcalls).bind ?_
    rintro fs gs (rfl | ⟨fields, fields', rfl, rfl, hfields⟩)
    · -- With an unknown key no object has been made yet.
      exact .of_forall _ .unknown
    · exact .ok (.object hfields)
  | .comprehension span collection keyName valueName filter key value grouping =>
    rw [calls_comprehension] at hcalls
    have hcollection := Expr.evaluate_foresees hlibrary collection h hcalls.left.left.left
    have hkept : ∀ {s t : Scope}, Scope.RefinedBy s t →
        Foresees SettledBy (keepsElement library span filter s)
          (keepsElement library span filter t) := by
      intro s t h
      match filter with
      | none => exact .of_eq SettledBy.refl
      | some filter =>
        exact keepsElement_foresees span (Expr.evaluate_foresees hlibrary filter h hcalls.right)
    have hcontribution : ∀ {s t : Scope}, Scope.RefinedBy s t →
        Foresees Turn.RefinedBy (contribution library span key value s)
          (contribution library span key value t) := by
      intro s t h
      have hvalue := Expr.evaluate_foresees hlibrary value h hcalls.left.left.right
      match key with
      | none => exact hvalue.bind fun v w hvw => .ok (.item hvw)
      | some key =>
        exact contribution_foresees span
          (Expr.evaluate_foresees hlibrary key h hcalls.left.right) hvalue
    rw [evaluate_comprehension, evaluate_comprehension]
    refine hcollection.bind fun v w hvw => ?_
    cases hv : v.isUnknown with
    | true => exact .of_forall _ .unknown
    | false =>
      -- A collection that is known has the same number of turns on both sides.
      rw [hvw.isUnknown_eq_false hv]
      refine (iteration_foresees span hvw hv).bind fun ps qs hpairs => ?_
      refine (foresees_foldlM hpairs ?_ Harvest.empty_refinedBy).bind ?_
      · rintro harvest harvest' p q hharvest ⟨hkeys, hvalues⟩
        have hinner := h.iteration keyName valueName hkeys hvalues
        refine (elementTurn_foresees span (hkept hinner) (hcontribution hinner)).bind ?_
        intro turn turn' hturn
        exact Harvest.add_foresees hharvest grouping span hturn
      · exact fun harvest harvest' hharvest =>
          .ok (Harvest.result_refinedBy hharvest key.isSome grouping)
  | .splat span source path =>
    simp only [Expr.calls] at hcalls
    simp only [Expr.evaluate]
    have hsteps : ∀ v w, Value.RefinedBy v w →
        Foresees Value.RefinedBy
          (evaluateSteps library span path v (s.child [(SymbolPath.splatItem, v)]))
          (evaluateSteps library span path w (t.child [(SymbolPath.splatItem, w)])) :=
      fun v w hvw => evaluateSteps_foresees hlibrary span path hvw
        (h.child (.cons _ hvw .nil)) hcalls.right
    refine (Expr.evaluate_foresees hlibrary source h hcalls.left).bind fun v w hvw => ?_
    cases hvw with
    | unknown => exact .of_forall _ .unknown
    | null => exact .ok (.list .nil)
    | list hitems =>
      exact (foresees_mapM (itemsRefinedBy_iff.mp hitems) hsteps).map
        fun vs ws hvs => .list (itemsRefinedBy_iff.mpr hvs)
    | set items =>
      -- Sets are not refined, but the steps may read refined symbols.
      exact (foresees_mapM (itemsRefinedBy_iff.mp (.refl items)) hsteps).map
        fun vs ws hvs => .list (itemsRefinedBy_iff.mpr hvs)
    | bool b => exact (hsteps _ _ (.bool b)).bind fun v w hvw => .ok (.list (.cons hvw .nil))
    | number n => exact (hsteps _ _ (.number n)).bind fun v w hvw => .ok (.list (.cons hvw .nil))
    | string x => exact (hsteps _ _ (.string x)).bind fun v w hvw => .ok (.list (.cons hvw .nil))
    | map hfields =>
      exact (hsteps _ _ (.map hfields)).bind fun v w hvw => .ok (.list (.cons hvw .nil))
    | object hfields =>
      exact (hsteps _ _ (.object hfields)).bind fun v w hvw => .ok (.list (.cons hvw .nil))
  | .template span parts =>
    simp only [Expr.calls] at hcalls
    simp only [Expr.evaluate]
    refine (evaluateParts_foresees hlibrary span parts h hcalls).bind ?_
    rintro text text' (rfl | rfl)
    · -- A template with an unknown part has no text yet.
      exact .of_forall _ .unknown
    · exact .of_eq Value.RefinedBy.refl
  | .stray directive =>
    simp only [Expr.evaluate]
    exact .error _ _

theorem evaluateAll_foresees (hlibrary : ∀ f ∈ library, f.Foreseeing) (es : List Expr)
    {s t : Scope} (h : Scope.RefinedBy s t) (hcalls : AbsorbsNothing (callsOfAll es)) :
    Foresees ItemsRefinedBy (evaluateAll library es s) (evaluateAll library es t) := by
  match es with
  | [] =>
    simp only [evaluateAll]
    exact .ok .nil
  | e :: es =>
    simp only [callsOfAll] at hcalls
    simp only [evaluateAll]
    refine (Expr.evaluate_foresees hlibrary e h hcalls.left).bind fun v w hvw => ?_
    refine (evaluateAll_foresees hlibrary es h hcalls.right).bind fun vs ws hvs => ?_
    exact .ok (.cons hvw hvs)

theorem evaluateFields_foresees (hlibrary : ∀ f ∈ library, f.Foreseeing) (span : Option Span)
    (items : List (Expr × Expr)) {undecided undecided' : Bool}
    {earlier earlier' : Table String Value}
    (hcollected : Collected undecided undecided' earlier earlier') {s t : Scope}
    (h : Scope.RefinedBy s t) (hcalls : AbsorbsNothing (callsOfPairs items)) :
    Foresees FieldsForeseen (evaluateFields library span items undecided earlier s)
      (evaluateFields library span items undecided' earlier' t) := by
  match items with
  | [] =>
    simp only [evaluateFields]
    cases hdecided : undecided with
    | true => exact .ok (.inl rfl)
    | false =>
      rw [hcollected.decided hdecided]
      exact .ok (.inr ⟨_, _, rfl, rfl, hcollected.fields hdecided⟩)
  | (key, value) :: rest =>
    simp only [callsOfPairs] at hcalls
    simp only [evaluateFields]
    refine (Expr.evaluate_foresees hlibrary key h hcalls.left.left).bind fun k l hkl => ?_
    refine (Expr.evaluate_foresees hlibrary value h hcalls.left.right).bind fun v w hvw => ?_
    cases hk : k.isUnknown with
    | true =>
      -- From here on the first run only looks for failures.
      cases hl : l.isUnknown with
      | true =>
        have hkeys : Collected true true earlier earlier' := ⟨hcollected.keys, nofun, nofun⟩
        exact evaluateFields_foresees hlibrary span rest hkeys h hcalls.right
      | false =>
        -- The key may turn out to repeat an earlier one, which is a failure in the refined run.
        refine .after fun name => ?_
        cases hhas' : Table.has earlier' name with
        | true => exact .error _ _
        | false =>
          have hkeys : Collected true undecided' earlier (Table.put earlier' name w) :=
            ⟨fun key hkey => (Table.has_put_iff _ _ _ _).mpr (.inr (hcollected.keys key hkey)),
              nofun, nofun⟩
          exact evaluateFields_foresees hlibrary span rest hkeys h hcalls.right
    | false =>
      rw [hkl.isUnknown_eq_false hk]
      refine (keyText_foresees (key.span.or span) hkl hk).bind ?_
      rintro name _ rfl
      cases hhas' : Table.has earlier' name with
      | true => exact .error _ _
      | false =>
        cases hhas : Table.has earlier name with
        | true =>
          -- The refined run has seen every key that the other one has.
          rw [hcollected.keys name hhas] at hhas'
          cases hhas'
        | false =>
          exact evaluateFields_foresees hlibrary span rest (hcollected.put name hvw) h
            hcalls.right

theorem evaluateSteps_foresees (hlibrary : ∀ f ∈ library, f.Foreseeing) (span : Option Span)
    (path : List Step) {v w : Value} (hvw : Value.RefinedBy v w) {s t : Scope}
    (h : Scope.RefinedBy s t) (hcalls : AbsorbsNothing (callsOfSteps path)) :
    Foresees Value.RefinedBy (evaluateSteps library span path v s)
      (evaluateSteps library span path w t) := by
  match path with
  | [] =>
    simp only [evaluateSteps]
    exact .ok hvw
  | .access name :: rest =>
    simp only [callsOfSteps] at hcalls
    simp only [evaluateSteps]
    refine (field_foresees name span hvw).bind fun v w hvw => ?_
    exact evaluateSteps_foresees hlibrary span rest hvw h hcalls
  | .index key :: rest =>
    simp only [callsOfSteps] at hcalls
    simp only [evaluateSteps]
    refine (Expr.evaluate_foresees hlibrary key h hcalls.left).bind fun k l hkl => ?_
    refine (element_foresees span hvw hkl).bind fun v w hvw => ?_
    exact evaluateSteps_foresees hlibrary span rest hvw h hcalls.right

theorem evaluateParts_foresees (hlibrary : ∀ f ∈ library, f.Foreseeing) (span : Option Span)
    (parts : List Part) {s t : Scope} (h : Scope.RefinedBy s t)
    (hcalls : AbsorbsNothing (callsOfParts parts)) :
    Foresees SettledBy (evaluateParts library span parts s)
      (evaluateParts library span parts t) := by
  match parts with
  | [] =>
    simp only [evaluateParts]
    exact .ok (.refl _)
  | .text x :: rest =>
    simp only [callsOfParts] at hcalls
    simp only [evaluateParts]
    refine (evaluateParts_foresees hlibrary span rest h hcalls).bind fun a b hab => ?_
    exact .ok (SettledBy.appendKnown (.refl (some x)) hab)
  | .interpolation expression :: rest =>
    simp only [callsOfParts] at hcalls
    simp only [evaluateParts]
    refine (Expr.evaluate_foresees hlibrary expression h hcalls.left).bind fun v w hvw => ?_
    refine (interpolatedText?_foresees _ hvw).bind fun a b hab => ?_
    refine (evaluateParts_foresees hlibrary span rest h hcalls.right).bind fun a' b' hab' => ?_
    exact .ok (hab.appendKnown hab')
  | .directive directive :: rest =>
    simp only [callsOfParts] at hcalls
    simp only [evaluateParts]
    refine (Directive.evaluate_foresees hlibrary directive h hcalls.left).bind fun a b hab => ?_
    refine (evaluateParts_foresees hlibrary span rest h hcalls.right).bind fun a' b' hab' => ?_
    exact .ok (hab.appendKnown hab')

theorem Directive.evaluate_foresees (hlibrary : ∀ f ∈ library, f.Foreseeing)
    (directive : Directive) {s t : Scope} (h : Scope.RefinedBy s t)
    (hcalls : AbsorbsNothing directive.calls) :
    Foresees SettledBy (directive.evaluate library s) (directive.evaluate library t) := by
  match directive with
  | .ifElse span condition thenParts elseParts =>
    simp only [Directive.calls] at hcalls
    simp only [Directive.evaluate]
    have hcondition := Expr.evaluate_foresees hlibrary condition h hcalls.left.left
    refine hcondition.bind fun v w hvw => (truth?_foresees _ span hvw).bind ?_
    rintro _ truth (rfl | rfl)
    · exact .of_forall _ fun _ => .inl rfl
    · rcases truth with _ | _ | _
      · exact .ok (.inl rfl)
      · exact evaluateParts_foresees hlibrary span elseParts h hcalls.right
      · exact evaluateParts_foresees hlibrary span thenParts h hcalls.left.right
  | .forEach span collection keyName valueName body =>
    simp only [Directive.calls] at hcalls
    simp only [Directive.evaluate]
    refine (Expr.evaluate_foresees hlibrary collection h hcalls.left).bind fun v w hvw => ?_
    cases hv : v.isUnknown with
    | true => exact .of_forall _ fun _ => .inl rfl
    | false =>
      rw [hvw.isUnknown_eq_false hv]
      refine (iteration_foresees span hvw hv).bind fun ps qs hpairs => ?_
      refine foresees_foldlM hpairs ?_ (.refl _)
      rintro text text' p q htext ⟨hkeys, hvalues⟩
      have hinner := h.iteration keyName valueName hkeys hvalues
      refine (evaluateParts_foresees hlibrary span body hinner hcalls.right).bind fun a b hab => ?_
      exact .ok (htext.appendKnown hab)

end

end Simulation

/-! ## Main statement -/

/-- **Unknown is conservative.**  Let every look-up in the scope `t` refine the one in `s`, and
fail where that one fails.  A value that an expression without calls of `try` and `can` has in
`s` is refined by the one it has in `t`, if it has one there; a value without unknown parts
stays as it is.  Where the evaluation in `s` fails, so does the one in `t`. -/
theorem evaluate_refines_of_lookups_refine (e : Expr) (htry : "try" ∉ e.calls)
    (hcan : "can" ∉ e.calls) {s t : Scope}
    (hvalues : ∀ path span v, s.lookup path span = .ok v →
      ∃ w, t.lookup path span = .ok w ∧ Value.RefinedBy v w)
    (hfaults : ∀ path span fault, s.lookup path span = .error fault →
      ∃ fault', t.lookup path span = .error fault') :
    (∀ v, e.evaluate Library.standard s = .ok v →
      (∃ fault, e.evaluate Library.standard t = .error fault)
        ∨ ∃ w, e.evaluate Library.standard t = .ok w ∧ Value.RefinedBy v w
            ∧ (v.containsUnknown = false → w = v))
      ∧ ∀ fault, e.evaluate Library.standard s = .error fault →
          ∃ fault', e.evaluate Library.standard t = .error fault' := by
  have hscopes : Scope.RefinedBy s t := by
    intro path span w hw
    cases hs : s.lookup path span with
    | ok v =>
      obtain ⟨w', hw', hvw⟩ := hvalues path span v hs
      rw [hw] at hw'
      cases hw'
      exact ⟨v, rfl, hvw⟩
    | error fault =>
      obtain ⟨fault', hfault'⟩ := hfaults path span fault hs
      rw [hw] at hfault'
      cases hfault'
  have hforesees := e.evaluate_foresees standard_foreseeing hscopes ⟨htry, hcan⟩
  constructor
  · intro v hv
    cases ht : e.evaluate Library.standard t with
    | error fault => exact .inl ⟨fault, rfl⟩
    | ok w =>
      obtain ⟨v', hv', hvw⟩ := hforesees w ht
      rw [hv] at hv'
      cases hv'
      exact .inr ⟨w, rfl, hvw, hvw.eq_of_known⟩
  · intro fault hs
    cases ht : e.evaluate Library.standard t with
    | error fault' => exact ⟨fault', rfl⟩
    | ok w =>
      obtain ⟨v, hv, _⟩ := hforesees w ht
      rw [hs] at hv
      cases hv

/-- `{a = [for x in [local.i, true] : !x], n = length([local.i])}`, first where `local.i` is
unknown and then where it is true. -/
theorem evaluate_refines_object :
    let i : SymbolPath := ⟨.localName, "i"⟩
    let s : Scope := Scope.child [] [(i, .unknown)]
    let t : Scope := Scope.child [] [(i, .bool true)]
    let e : Expr := .object none
      [(.literal none (.string "a"),
        .comprehension none (.list none [.ref none i, .literal none (.bool true)]) none "x" none
          none (.unary none .not (.ref none (.bound "x"))) false),
        (.literal none (.string "n"), .call none "length" [.list none [.ref none i]])]
    let v : Value := .object [("a", .list [.unknown, .bool false]), ("n", .ofNat 1)]
    e.evaluate Library.standard s = .ok v
      ∧ ∃ w, e.evaluate Library.standard t = .ok w ∧ Value.RefinedBy v w := by
  intro i s t e v
  have hs : e.evaluate Library.standard s = .ok v := by
    cbv
  have ht : e.evaluate Library.standard t
      = .ok (.object [("a", .list [.bool false, .bool false]), ("n", .ofNat 1)]) := by
    cbv
  have hother : ∀ (v : Value) path span, path ≠ i →
      (Scope.child [] [(i, v)]).lookup path span = fail (.undefinedSymbol path.address []) span := by
    intro v path span hpath
    rw [Scope.lookup_child_of_unbound]
    · rfl
    · simp [Table.ofList, Table.putAll, Table.put, Table.get?, hpath.symm]
  have hvalues : ∀ path span v, s.lookup path span = .ok v →
      ∃ w, t.lookup path span = .ok w ∧ Value.RefinedBy v w := by
    intro path span v hv
    by_cases hpath : path = i
    · subst hpath
      cases hv
      exact ⟨.bool true, rfl, .unknown _⟩
    · rw [hother _ path span hpath] at hv
      cases hv
  have hfaults : ∀ path span fault, s.lookup path span = .error fault →
      ∃ fault', t.lookup path span = .error fault' := by
    intro path span fault hfault
    by_cases hpath : path = i
    · subst hpath
      cases hfault
    · exact ⟨_, hother _ path span hpath⟩
  have hrefines := evaluate_refines_of_lookups_refine e (by decide) (by decide) hvalues hfaults
  refine ⟨hs, ?_⟩
  rcases hrefines.1 v hs with ⟨fault, hfault⟩ | ⟨w, hw, hvw, _⟩
  · rw [ht] at hfault
    cases hfault
  · exact ⟨w, hw, hvw⟩

end Groundplan
