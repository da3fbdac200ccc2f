import Groundplan.Proofs.Equality.Library
import Groundplan.Proofs.Equality.Valid
import Groundplan.Proofs.Safety.Containment

/-!
# Evaluation Respects Structural Equality

Scopes whose look-ups give equal values evaluate an expression to equal values, or fail with faults
of the same class.  Neither the order in which fields are listed nor the digits and the sign of zero
that a number carries can be observed, unless an expression calls `format`, which shows digits.

The proof relates two runs of the evaluator by values that are alike.  What loops collect lies in
the same order on both sides, because fields are visited in the order of their keys.

## Main Definitions

- `Scope.Equals`, `Scope.Alike`: scopes whose look-ups give equal values, or values that are alike
- `Turn.Alike`, `Harvest.Alike`
- `Expr.IsRespectful`: what is asked of every expression inside an expression

## Main Statements

- `Expr.evaluate_agrees`: the simulation
- `evaluate_respects_equality`: what it says about equal values
-/

namespace Groundplan

open Value

/-! ## Scopes -/

namespace Scope

/-- Look-ups in two scopes give related values, or fail with faults of the same class. -/
def Related (R : Value → Value → Prop) (s t : Scope) : Prop :=
  ∀ path span, Agrees R (s.lookup path span) (t.lookup path span)

/-- Look-ups in two scopes give values that are alike. -/
abbrev Alike : Scope → Scope → Prop :=
  Related Value.Alike

/-- Look-ups in two scopes give valid values that are structurally equal. -/
def Equals : Scope → Scope → Prop :=
  Related fun v w => v.IsValid ∧ w.IsValid ∧ v.equals w = true

variable {R : Value → Value → Prop} {s t : Scope}

/-- Frames that bind the same symbols to related values keep scopes related. -/
theorem Related.child (h : Related R s t) {bindings bindings' : List (SymbolPath × Value)}
    (hbindings : Table.Related R bindings bindings') :
    Related R (s.child bindings) (t.child bindings') := by
  intro path span
  have hget := hbindings.ofList.get? path
  unfold lookup
  rw [find_child, find_child]
  generalize Table.get? (Table.ofList bindings) path = found at hget
  generalize Table.get? (Table.ofList bindings') path = found' at hget
  cases hget with
  | some hvw => exact .ok hvw
  | none => exact h path span

theorem Related.iteration (h : Scope.Alike s t) (keyName : Option String) (valueName : String)
    {key key' value value' : Value} (hkey : Value.Alike key key')
    (hvalue : Value.Alike value value') :
    Scope.Alike (iterationScope s keyName valueName key value)
      (iterationScope t keyName valueName key' value') := by
  refine h.child (.cons _ hvalue ?_)
  cases keyName with
  | none => exact .nil
  | some name => exact .cons _ hkey .nil

/-- Without frames no symbol has a value. -/
theorem related_nil : Related R [] [] :=
  fun _ _ => .fail (by rfl)

/-- Equal values that keep the invariants are alike. -/
theorem Equals.alike (h : Equals s t) : Alike s t :=
  fun path span => (h path span).mono fun _ _ ⟨hv, hw, hvw⟩ => hv.alike_of_equals hw hvw

end Scope

/-! ## Comprehensions -/

/-- Turns of the same form, with values that are alike. -/
inductive Turn.Alike : Turn → Turn → Prop where
  | skipped : Alike .skipped .skipped
  | undecided : Alike .undecided .undecided
  | item {v w : Value} : Value.Alike v w → Alike (.item v) (.item w)
  | entry (key : String) {v w : Value} : Value.Alike v w → Alike (.entry key v) (.entry key w)

/-- What has been collected is alike, under the same keys in the same order; without groups there is
one value under each key. -/
structure Harvest.Alike (grouping : Bool) (h h' : Harvest) : Prop where
  undecided : h.undecided = h'.undecided
  items : ItemsAlike h.items h'.items
  entries : Table.Related ItemsAlike h.entries h'.entries
  distinct : (Table.keys h.entries).Nodup
  single : grouping = false → ∀ entry ∈ h.entries, ∃ v, entry.2 = [v]

namespace Harvest

variable {h h' : Harvest} {grouping : Bool}

theorem empty_alike : Alike grouping empty empty :=
  ⟨rfl, .nil, .nil, List.nodup_nil, fun _ _ hentry => absurd hentry List.not_mem_nil⟩

/-- Storing under one key on both sides keeps what has been collected alike. -/
theorem Alike.put (hh : Alike grouping h h') (key : String) {values values' : List Value}
    (hvalues : ItemsAlike values values') (hsingle : grouping = false → ∃ v, values = [v]) :
    Alike grouping { h with entries := Table.put h.entries key values }
      { h' with entries := Table.put h'.entries key values' } := by
  refine ⟨hh.undecided, hh.items, hh.entries.put key hvalues,
    Table.nodup_keys_put _ _ _ hh.distinct, fun hgrouping entry hentry => ?_⟩
  rcases Table.eq_or_mem_of_mem_put hentry with rfl | hmem
  · exact hsingle hgrouping
  · exact hh.single hgrouping entry hmem

/-- A turn on both sides keeps what has been collected alike. -/
theorem add_agrees (hh : Alike grouping h h') (span : Option Span) {turn turn' : Turn}
    (hturn : Turn.Alike turn turn') :
    Agrees (Alike grouping) (h.add grouping span turn) (h'.add grouping span turn') := by
  cases hturn with
  | skipped => exact .ok hh
  | undecided => exact .ok ⟨rfl, hh.items, hh.entries, hh.distinct, hh.single⟩
  | item hvw =>
    exact .ok ⟨hh.undecided, hh.items.append (.cons hvw .nil), hh.entries, hh.distinct, hh.single⟩
  | entry key hvw =>
    have hget := hh.entries.get? key
    unfold add
    dsimp only
    generalize Table.get? h.entries key = found at hget
    generalize Table.get? h'.entries key = found' at hget
    cases hget with
    | none => exact .ok (hh.put key (.cons hvw .nil) fun _ => ⟨_, rfl⟩)
    | some hearlier =>
      refine .ite Iff.rfl (fun hgrouping => ?_) fun _ => .fail (by rfl)
      exact .ok (hh.put key (hearlier.append (.cons hvw .nil))
        fun hnone => by rw [hgrouping] at hnone; cases hnone)

/-- The fields of a result without groups. -/
private theorem flatEntries_alike {t u : Table String (List Value)}
    (hentries : Table.Related ItemsAlike t u) (hsingle : ∀ entry ∈ t, ∃ v, entry.2 = [v]) :
    Table.Related Value.Alike (t.flatMap fun entry => entry.2.map (entry.1, ·))
        (u.flatMap fun entry => entry.2.map (entry.1, ·))
      ∧ Table.keys (t.flatMap fun entry => entry.2.map (entry.1, ·)) = Table.keys t := by
  induction hentries with
  | nil => exact ⟨.nil, rfl⟩
  | @cons key values values' t u hvalues _ ih =>
    obtain ⟨hhead, hrest⟩ := List.forall_mem_cons.mp hsingle
    obtain ⟨v, rfl⟩ := hhead
    obtain ⟨hrelated, hkeys⟩ := ih hrest
    obtain _ | ⟨hvw, _ | _⟩ := hvalues
    refine ⟨.cons key hvw hrelated, ?_⟩
    unfold Table.keys at hkeys ⊢
    exact congrArg (key :: ·) hkeys

theorem result_alike (hh : Alike grouping h h') (keyed : Bool) :
    Value.Alike (h.result keyed grouping) (h'.result keyed grouping) := by
  unfold result
  rw [hh.undecided]
  split
  · exact .unknown
  · split
    · exact .list hh.items
    · split
      · refine alike_map ((hh.entries.map fun _ _ hvalues => .list hvalues).similar ?_)
        simpa [Table.keys, Function.comp_def] using hh.distinct
      · next hgrouping =>
        obtain ⟨hrelated, hkeys⟩ := flatEntries_alike hh.entries
          (hh.single (by simpa using hgrouping))
        exact alike_map (hrelated.similar (hkeys ▸ hh.distinct))

end Harvest

/-! ## Evaluation -/

/-- A literal is valid, and a called function is respectful. -/
def Expr.IsRespectful (library : Library) : Expr → Prop
  | .literal _ v => v.IsValid
  | .call _ function _ => function ≠ "try" → function ≠ "can" → library.Respects function
  | _ => True

section

variable {library : Library}

theorem keepsElement_agrees {s t : Scope} (span : Option Span) {filter : Option Expr}
    (hfilter : ∀ e ∈ filter, Agrees Value.Alike (e.evaluate library s) (e.evaluate library t)) :
    Agrees Eq (keepsElement library span filter s) (keepsElement library span filter t) := by
  cases filter with
  | none => exact .refl _
  | some filter => exact (hfilter filter rfl).bind fun _ _ _ _ hvw => truth?_agrees _ span hvw

theorem contribution_agrees {s t : Scope} (span : Option Span) {key : Option Expr} {value : Expr}
    (hkey : ∀ e ∈ key, Agrees Value.Alike (e.evaluate library s) (e.evaluate library t))
    (hvalue : Agrees Value.Alike (value.evaluate library s) (value.evaluate library t)) :
    Agrees Turn.Alike (contribution library span key value s)
      (contribution library span key value t) := by
  cases key with
  | none => exact hvalue.bind fun _ _ _ _ hvw => .pure (.item hvw)
  | some key =>
    refine (hkey key rfl).bind fun k l _ _ hkl => hvalue.bind fun v w _ _ hvw => ?_
    rw [hkl.isUnknown_eq]
    refine .ite Iff.rfl (fun _ => .pure .undecided) fun _ => ?_
    refine (keyText_agrees span hkl).bind ?_
    rintro text _ - - rfl
    exact .pure (.entry text hvw)

/-- One turn of a comprehension. -/
theorem elementTurn_agrees {s t : Scope} (span : Option Span) {filter key : Option Expr}
    {value : Expr}
    (hfilter : ∀ e ∈ filter, Agrees Value.Alike (e.evaluate library s) (e.evaluate library t))
    (hkey : ∀ e ∈ key, Agrees Value.Alike (e.evaluate library s) (e.evaluate library t))
    (hvalue : Agrees Value.Alike (value.evaluate library s) (value.evaluate library t)) :
    Agrees Turn.Alike (elementTurn library span filter key value s)
      (elementTurn library span filter key value t) := by
  refine (keepsElement_agrees span hfilter).bind ?_
  rintro kept _ - - rfl
  match kept with
  | none => exact .pure .undecided
  | some false => exact .pure .skipped
  | some true => exact contribution_agrees span hkey hvalue

mutual

/-- Evaluation agrees in scopes that are alike. -/
theorem Expr.evaluate_agrees (e : Expr) (h : ∀ x ∈ e.subexpressions, x.IsRespectful library)
    {s t : Scope} (hscope : Scope.Alike s t) :
    Agrees Value.Alike (e.evaluate library s) (e.evaluate library t) := by
  match e with
  | .literal span value =>
    simp only [Expr.subexpressions, List.forall_mem_singleton] at h
    rw [Expr.evaluate, Expr.evaluate]
    exact .ok (IsValid.alike h)
  | .ref span path =>
    rw [Expr.evaluate, Expr.evaluate]
    exact hscope path span
  | .index span collection key =>
    simp only [Expr.subexpressions, List.forall_mem_cons, List.forall_mem_append] at h
    obtain ⟨_, hcollection, hkey⟩ := h
    rw [Expr.evaluate, Expr.evaluate]
    refine (Expr.evaluate_agrees collection hcollection hscope).bind fun _ _ _ _ hvw => ?_
    refine (Expr.evaluate_agrees key hkey hscope).bind fun _ _ _ _ hkl => ?_
    exact element_agrees span hvw hkl
  | .access span target name =>
    simp only [Expr.subexpressions, List.forall_mem_cons] at h
    rw [Expr.evaluate, Expr.evaluate]
    exact (Expr.evaluate_agrees target h.2 hscope).bind fun _ _ _ _ hvw => field_agrees name span hvw
  | .call span function arguments =>
    simp only [Expr.subexpressions, List.forall_mem_cons] at h
    obtain ⟨hself, harguments⟩ := h
    by_cases htry : function = "try"
    · -- The arguments are tried one after another, and fail on both sides or on neither.
      rw [Expr.evaluate.eq_def, Expr.evaluate.eq_def]
      dsimp only
      rw [if_pos htry, if_pos htry]
      refine .ite Iff.rfl (fun _ => .fail (by rfl)) fun _ => ?_
      exact evaluateFirst_agrees span arguments [] [] harguments hscope
    by_cases hcan : function = "can"
    · rw [Expr.evaluate.eq_def, Expr.evaluate.eq_def]
      dsimp only
      rw [if_neg htry, if_neg htry, if_pos hcan, if_pos hcan]
      match arguments with
      | [argument] =>
        simp only [subexpressionsOfAll, List.append_nil] at harguments
        have hargument := Expr.evaluate_agrees argument harguments hscope
        dsimp only
        generalize argument.evaluate library s = x at hargument
        generalize argument.evaluate library t = y at hargument
        cases hargument with
        | ok _ => exact .ok (.bool true)
        | error hfault =>
          -- An error is turned into a value, and a defect of the same class passes.
          cases hfault with
          | error _ => exact .ok (.bool false)
          | defect d => exact .error (.defect d)
          | infinite shown shown' => exact .error (.infinite shown shown')
      | [] | _ :: _ :: _ => exact .fail (by rfl)
    · -- Any other function gets the values of all arguments.
      rw [evaluate_call library span arguments s htry hcan,
        evaluate_call library span arguments t htry hcan]
      refine (evaluateAll_agrees arguments harguments hscope).bind fun _ _ _ _ hvalues => ?_
      exact hself htry hcan _ _ span hvalues
  | .conditional span condition whenTrue whenFalse =>
    simp only [Expr.subexpressions, List.forall_mem_cons, List.forall_mem_append] at h
    obtain ⟨_, ⟨hcondition, htrue⟩, hfalse⟩ := h
    rw [Expr.evaluate, Expr.evaluate]
    refine (Expr.evaluate_agrees condition hcondition hscope).bind fun _ _ _ _ hvw => ?_
    refine (truth?_agrees _ span hvw).bind ?_
    rintro truth _ - - rfl
    match truth with
    | none => exact .pure .unknown
    | some true => exact Expr.evaluate_agrees whenTrue htrue hscope
    | some false => exact Expr.evaluate_agrees whenFalse hfalse hscope
  | .binary span operator left right =>
    simp only [Expr.subexpressions, List.forall_mem_cons, List.forall_mem_append] at h
    obtain ⟨_, hleft, hright⟩ := h
    rw [Expr.evaluate, Expr.evaluate]
    refine (Expr.evaluate_agrees left hleft hscope).bind fun _ _ _ _ hvw => ?_
    refine (Expr.evaluate_agrees right hright hscope).bind fun _ _ _ _ hkl => ?_
    exact operator.applyBinary_agrees span hvw hkl
  | .unary span operator operand =>
    simp only [Expr.subexpressions, List.forall_mem_cons] at h
    rw [Expr.evaluate, Expr.evaluate]
    refine (Expr.evaluate_agrees operand h.2 hscope).bind fun _ _ _ _ hvw => ?_
    exact operator.applyUnary_agrees span hvw
  | .list span items =>
    simp only [Expr.subexpressions, List.forall_mem_cons] at h
    rw [Expr.evaluate, Expr.evaluate]
    exact (evaluateAll_agrees items h.2 hscope).map fun _ _ hvalues => .list hvalues
  | .object span items =>
    simp only [Expr.subexpressions, List.forall_mem_cons] at h
    rw [Expr.evaluate, Expr.evaluate]
    refine (evaluateFields_agrees span items false .nil List.nodup_nil h.2 hscope).bind
      fun _ _ _ _ hfields => ?_
    cases hfields with
    | some hfields => exact .pure (alike_object hfields)
    | none => exact .pure .unknown
  | .comprehension span collection keyName valueName filter key value grouping =>
    simp only [subexpressions_comprehension, List.forall_mem_cons, List.forall_mem_append] at h
    obtain ⟨_, ⟨⟨hcollection, hvalue⟩, hkey⟩, hfilter⟩ := h
    rw [evaluate_comprehension, evaluate_comprehension]
    refine (Expr.evaluate_agrees collection hcollection hscope).bind fun c d _ _ hcd => ?_
    rw [hcd.isUnknown_eq]
    refine .ite Iff.rfl (fun _ => .pure .unknown) fun _ => ?_
    -- Fields are visited in the order of their keys, so the turns come in the same order.
    refine (iteration_agrees span hcd).bind fun pairs pairs' _ _ hpairs => ?_
    refine (concur_foldlM hpairs ?_ Harvest.empty_alike).bind fun _ _ _ _ hharvest =>
      .pure (Harvest.result_alike hharvest key.isSome)
    rintro harvest harvest' p q hharvest ⟨hk, hv⟩
    have hinner := hscope.iteration keyName valueName hk hv
    refine (elementTurn_agrees span ?_ ?_ (Expr.evaluate_agrees value hvalue hinner)).bind
      fun _ _ _ _ hturn => Harvest.add_agrees hharvest span hturn
    · match filter with
      | none => exact fun e he => nomatch he
      | some filter =>
        rintro e ⟨⟩
        exact Expr.evaluate_agrees filter hfilter hinner
    · match key with
      | none => exact fun e he => nomatch he
      | some key =>
        rintro e ⟨⟩
        exact Expr.evaluate_agrees key hkey hinner
  | .splat span source path =>
    simp only [Expr.subexpressions, List.forall_mem_cons, List.forall_mem_append] at h
    obtain ⟨_, hsource, hpath⟩ := h
    have hsteps : ∀ v w, Value.Alike v w → Agrees Value.Alike
        (evaluateSteps library span path v (s.child [(SymbolPath.splatItem, v)]))
        (evaluateSteps library span path w (t.child [(SymbolPath.splatItem, w)])) :=
      fun v w hvw => evaluateSteps_agrees span path hvw hpath (hscope.child (.cons _ hvw .nil))
    have hsingle : ∀ v w, Value.Alike v w → Agrees Value.Alike
        (do
          let item ← evaluateSteps library span path v (s.child [(SymbolPath.splatItem, v)])
          return .list [item])
        (do
          let item ← evaluateSteps library span path w (t.child [(SymbolPath.splatItem, w)])
          return .list [item]) :=
      fun v w hvw => (hsteps v w hvw).bind fun _ _ _ _ hitem => .pure (.list (.cons hitem .nil))
    rw [Expr.evaluate, Expr.evaluate]
    refine (Expr.evaluate_agrees source hsource hscope).bind fun v w _ _ hvw => ?_
    -- A value without elements is taken for its only element, unless it is null.
    cases hvw with
    | unknown => exact .pure .unknown
    | null => exact .pure (.list .nil)
    | list hitems | set hitems =>
      exact (concur_mapM (itemsAlike_iff.mp hitems) hsteps).map
        fun _ _ hvalues => .list (itemsAlike_iff.mpr hvalues)
    | bool b => exact hsingle _ _ (.bool b)
    | number hab => exact hsingle _ _ (.number hab)
    | string x => exact hsingle _ _ (.string x)
    | map hdistinct hfields hperm => exact hsingle _ _ (.map hdistinct hfields hperm)
    | object hdistinct hfields hperm => exact hsingle _ _ (.object hdistinct hfields hperm)
  | .template span parts =>
    simp only [Expr.subexpressions, List.forall_mem_cons] at h
    rw [Expr.evaluate, Expr.evaluate]
    refine (evaluateParts_agrees span parts h.2 hscope).bind ?_
    rintro text _ - - rfl
    match text with
    | some text => exact .pure (.string text)
    | none => exact .pure .unknown
  | .stray directive =>
    rw [Expr.evaluate, Expr.evaluate]
    exact .error (.refl _)

theorem evaluateAll_agrees (es : List Expr)
    (h : ∀ x ∈ subexpressionsOfAll es, x.IsRespectful library) {s t : Scope}
    (hscope : Scope.Alike s t) :
    Agrees ItemsAlike (evaluateAll library es s) (evaluateAll library es t) := by
  match es with
  | [] =>
    rw [evaluateAll, evaluateAll]
    exact .ok .nil
  | e :: es =>
    simp only [subexpressionsOfAll, List.forall_mem_append] at h
    rw [evaluateAll, evaluateAll]
    refine (Expr.evaluate_agrees e h.1 hscope).bind fun _ _ _ _ hvw => ?_
    refine (evaluateAll_agrees es h.2 hscope).bind fun _ _ _ _ hvalues => ?_
    exact .pure (.cons hvw hvalues)

/-- Earlier failures are only shown in the last message. -/
theorem evaluateFirst_agrees (span : Option Span) (es : List Expr)
    (failures failures' : List Diagnostic)
    (h : ∀ x ∈ subexpressionsOfAll es, x.IsRespectful library) {s t : Scope}
    (hscope : Scope.Alike s t) :
    Agrees Value.Alike (evaluateFirst library span es failures s)
      (evaluateFirst library span es failures' t) := by
  match es with
  | [] =>
    rw [evaluateFirst, evaluateFirst]
    exact .error (.error rfl)
  | e :: es =>
    simp only [subexpressionsOfAll, List.forall_mem_append] at h
    have hfirst := Expr.evaluate_agrees e h.1 hscope
    rw [evaluateFirst, evaluateFirst]
    generalize e.evaluate library s = x at hfirst
    generalize e.evaluate library t = y at hfirst
    cases hfirst with
    | ok hvw => exact .ok hvw
    | error hfault =>
      -- Only errors lead to the next argument.
      cases hfault with
      | error _ => exact evaluateFirst_agrees span es _ _ h.2 hscope
      | defect d => exact .error (.defect d)
      | infinite shown shown' => exact .error (.infinite shown shown')

theorem evaluateFields_agrees (span : Option Span) (items : List (Expr × Expr)) (undecided : Bool)
    {earlier earlier' : Table String Value} (hearlier : Table.Related Value.Alike earlier earlier')
    (hdistinct : (Table.keys earlier).Nodup)
    (h : ∀ x ∈ subexpressionsOfPairs items, x.IsRespectful library) {s t : Scope}
    (hscope : Scope.Alike s t) :
    Agrees (Option.Rel (Table.Similar Value.Alike))
      (evaluateFields library span items undecided earlier s)
      (evaluateFields library span items undecided earlier' t) := by
  match items with
  | [] =>
    rw [evaluateFields, evaluateFields]
    cases undecided with
    | true => exact .ok .none
    | false => exact .ok (.some (hearlier.similar hdistinct))
  | (key, value) :: rest =>
    simp only [subexpressionsOfPairs, List.forall_mem_append] at h
    obtain ⟨⟨hkey, hvalue⟩, hrest⟩ := h
    rw [evaluateFields, evaluateFields]
    refine (Expr.evaluate_agrees key hkey hscope).bind fun k l _ _ hkl => ?_
    refine (Expr.evaluate_agrees value hvalue hscope).bind fun v w _ _ hvw => ?_
    rw [hkl.isUnknown_eq]
    refine .ite Iff.rfl
      (fun _ => evaluateFields_agrees span rest true hearlier hdistinct hrest hscope) fun _ => ?_
    refine (keyText_agrees (key.span.or span) hkl).bind ?_
    rintro name _ - - rfl
    -- A key that repeats an earlier one repeats it on both sides.
    rw [hearlier.has_eq]
    refine .ite Iff.rfl (fun _ => .fail (by rfl)) fun _ => ?_
    exact evaluateFields_agrees span rest undecided (hearlier.put name hvw)
      (Table.nodup_keys_put _ _ _ hdistinct) hrest hscope

theorem evaluateSteps_agrees (span : Option Span) (path : List Step) {v w : Value}
    (hvw : Value.Alike v w) (h : ∀ x ∈ subexpressionsOfSteps path, x.IsRespectful library)
    {s t : Scope} (hscope : Scope.Alike s t) :
    Agrees Value.Alike (evaluateSteps library span path v s)
      (evaluateSteps library span path w t) := by
  match path with
  | [] =>
    rw [evaluateSteps, evaluateSteps]
    exact .ok hvw
  | .access name :: rest =>
    simp only [subexpressionsOfSteps] at h
    rw [evaluateSteps, evaluateSteps]
    refine (field_agrees name span hvw).bind fun _ _ _ _ hvw => ?_
    exact evaluateSteps_agrees span rest hvw h hscope
  | .index key :: rest =>
    simp only [subexpressionsOfSteps, List.forall_mem_append] at h
    rw [evaluateSteps, evaluateSteps]
    refine (Expr.evaluate_agrees key h.1 hscope).bind fun _ _ _ _ hkl => ?_
    refine (element_agrees span hvw hkl).bind fun _ _ _ _ hvw => ?_
    exact evaluateSteps_agrees span rest hvw h.2 hscope

theorem evaluateParts_agrees (span : Option Span) (parts : List Part)
    (h : ∀ x ∈ subexpressionsOfParts parts, x.IsRespectful library) {s t : Scope}
    (hscope : Scope.Alike s t) :
    Agrees Eq (evaluateParts library span parts s) (evaluateParts library span parts t) := by
  match parts with
  | [] =>
    rw [evaluateParts, evaluateParts]
    exact .ok rfl
  | .text x :: rest =>
    simp only [subexpressionsOfParts] at h
    rw [evaluateParts, evaluateParts]
    refine (evaluateParts_agrees span rest h hscope).bind ?_
    rintro text _ - - rfl
    exact .refl _
  | .interpolation expression :: rest =>
    simp only [subexpressionsOfParts, List.forall_mem_append] at h
    rw [evaluateParts, evaluateParts]
    refine (Expr.evaluate_agrees expression h.1 hscope).bind fun _ _ _ _ hvw => ?_
    refine (interpolatedText?_agrees _ hvw).bind ?_
    rintro text _ - - rfl
    refine (evaluateParts_agrees span rest h.2 hscope).bind ?_
    rintro others _ - - rfl
    exact .refl _
  | .directive directive :: rest =>
    simp only [subexpressionsOfParts, List.forall_mem_append] at h
    rw [evaluateParts, evaluateParts]
    refine (Directive.evaluate_agrees directive h.1 hscope).bind ?_
    rintro text _ - - rfl
    refine (evaluateParts_agrees span rest h.2 hscope).bind ?_
    rintro others _ - - rfl
    exact .refl _

theorem Directive.evaluate_agrees (directive : Directive)
    (h : ∀ x ∈ directive.subexpressions, x.IsRespectful library) {s t : Scope}
    (hscope : Scope.Alike s t) :
    Agrees Eq (directive.evaluate library s) (directive.evaluate library t) := by
  match directive with
  | .ifElse span condition thenParts elseParts =>
    simp only [Directive.subexpressions, List.forall_mem_append] at h
    obtain ⟨⟨hcondition, hthen⟩, helse⟩ := h
    rw [Directive.evaluate, Directive.evaluate]
    refine (Expr.evaluate_agrees condition hcondition hscope).bind fun _ _ _ _ hvw => ?_
    refine (truth?_agrees _ span hvw).bind ?_
    rintro truth _ - - rfl
    match truth with
    | none => exact .refl _
    | some true => exact evaluateParts_agrees span thenParts hthen hscope
    | some false => exact evaluateParts_agrees span elseParts helse hscope
  | .forEach span collection keyName valueName body =>
    simp only [Directive.subexpressions, List.forall_mem_append] at h
    rw [Directive.evaluate, Directive.evaluate]
    refine (Expr.evaluate_agrees collection h.1 hscope).bind fun c d _ _ hcd => ?_
    rw [hcd.isUnknown_eq]
    refine .ite Iff.rfl (fun _ => .refl _) fun _ => ?_
    refine (iteration_agrees span hcd).bind fun pairs pairs' _ _ hpairs => ?_
    refine concur_foldlM hpairs ?_ rfl
    rintro text _ p q rfl ⟨hk, hv⟩
    have hinner := hscope.iteration keyName valueName hk hv
    refine (evaluateParts_agrees span body h.2 hinner).bind ?_
    rintro others _ - - rfl
    exact .refl _

end

end

/-! ## Equal values -/

/-- What an expression has written in it is valid. -/
def Expr.HasValidLiterals (e : Expr) : Prop :=
  ∀ span v, Expr.literal span v ∈ e.subexpressions → v.IsValid

/-- In scopes whose look-ups give equal values an expression without calls of `format` has equal
values, or fails with faults of the same class.  If it raises powers, they must respect the values
of numbers; with the powers of the language's context the library is the standard one. -/
theorem evaluate_respects_equality {e : Expr}
    {power : Decimal → Decimal → Except Decimal.Refusal Decimal} (hformat : ¬ e.HasCall "format")
    (hpower : e.HasCall "pow" → Decimal.RespectsValues power) (hliterals : e.HasValidLiterals)
    {s t : Scope} (hscope : s.Equals t) :
    Agrees (fun v w => v.equals w = true) (e.evaluate (Library.standardWith power) s)
      (e.evaluate (Library.standardWith power) t) := by
  have hrespectful : ∀ x ∈ e.subexpressions, x.IsRespectful (Library.standardWith power) := by
    intro x hx
    cases x with
    | literal span v => exact hliterals span v hx
    | call span name arguments =>
      intro _ _
      have hcall : e.HasCall name := ⟨span, arguments, hx⟩
      refine Library.standardWith_respects ?_ ?_
      · rintro rfl
        exact hformat hcall
      · rintro rfl
        exact hpower hcall
    | _ => trivial
  exact (e.evaluate_agrees hrespectful hscope.alike).mono fun _ _ => Value.Alike.equals

/-- Squares of sizes that are listed in another order, with other digits and another sign of zero. -/
theorem evaluate_respects_equality_squares :
    let sizes : SymbolPath := ⟨.localName, "sizes"⟩
    let squares := Expr.comprehension none (.ref none sizes) (some "name") "size" none
      (some (.ref none (.bound "name")))
      (.call none "pow" [.ref none (.bound "size"), .literal none (.number (.ofNat 2))]) false
    let library := Library.standardWith Decimal.Context.standard.powerOfWhole
    Agrees (fun v w => v.equals w = true)
      (squares.evaluate library (Scope.child [] [(sizes,
        .map [("disk", .number ⟨false, 150, -2⟩), ("swap", .number ⟨true, 0, 0⟩)])]))
      (squares.evaluate library (Scope.child [] [(sizes,
        .map [("swap", .number ⟨false, 0, 3⟩), ("disk", .number ⟨false, 15, -1⟩)])])) := by
  refine evaluate_respects_equality ?_
    (fun _ => Decimal.powerOfWhole_respectsValues Decimal.Context.standard_isSane) ?_
    (Scope.related_nil.child (.cons _ ⟨?_, ?_, ?_⟩ .nil))
  · simp [Expr.HasCall, Expr.subexpressions, subexpressionsOfAll]
  · simp [Expr.HasValidLiterals, Expr.subexpressions, subexpressionsOfAll, IsValid]
  · simp [IsValid, FieldsValid, Table.keys]
  · simp [IsValid, FieldsValid, Table.keys]
  · decide +kernel
end Groundplan
