import Groundplan.Proofs.Safety.WellFormed

/-!
# Evaluation Keeps Values Well Formed

Every function of the standard library takes well-formed arguments to a well-formed result: most
results are without parts, lists are made of parts of arguments, and the tables of `merge` and
`zipmap` are stored key by key.  As the rest of evaluation passes values between collections and
their parts, it yields well-formed values from well-formed literals and scopes.

## Main Definitions

- `Function.Keeps`: a function that takes well-formed arguments to well-formed results

## Main Statements

- `Library.standard_keeps`: the functions of the standard library
- `evaluate_wellFormed`: evaluation
-/

namespace Groundplan

open Value

/-- Well-formed arguments are taken to well-formed results. -/
def Function.Keeps (f : Function) : Prop :=
  ∀ args, (∀ v ∈ args, v.IsWellFormed) → Returns IsWellFormed (f.run args)

namespace Library

/-! ## Functions on collections -/

/-- A table of well-formed values with different keys stays one when such entries are stored. -/
theorem putAll_wellFormed {entries : List (String × Value)}
    (hentries : ∀ entry ∈ entries, entry.2.IsWellFormed) {t : Table String Value}
    (h : (Table.keys t).Nodup ∧ ∀ field ∈ t, field.2.IsWellFormed) :
    (Table.keys (Table.putAll t entries)).Nodup
      ∧ ∀ field ∈ Table.putAll t entries, field.2.IsWellFormed := by
  refine ⟨Table.nodup_keys_putAll t entries h.1, fun field hfield => ?_⟩
  rcases Table.mem_or_mem_of_mem_putAll hfield with hstored | hmem
  · exact hentries field hstored
  · exact h.2 field hmem

theorem merge_wellFormed {args : List Value} (h : ∀ v ∈ args, v.IsWellFormed) :
    (merge args).IsWellFormed := by
  have hmerged : ∀ (given : List Value) (t : Table String Value), (∀ v ∈ given, v.IsWellFormed) →
      ((Table.keys t).Nodup ∧ ∀ field ∈ t, field.2.IsWellFormed) →
      (Table.keys (given.foldl (fun fields arg =>
          Table.putAll fields (arg.fields?.getD [])) t)).Nodup
        ∧ ∀ field ∈ given.foldl (fun fields arg => Table.putAll fields (arg.fields?.getD [])) t,
          field.2.IsWellFormed := by
    intro given
    induction given with
    | nil => exact fun t _ ht => ht
    | cons v given ih =>
      intro t hgiven ht
      obtain ⟨hv, hrest⟩ := List.forall_mem_cons.mp hgiven
      exact ih _ hrest (putAll_wellFormed hv.fields.2 ht)
  have hresult := hmerged (args.filter fun arg => !arg.isNull) []
    (fun v hv => h v (List.mem_of_mem_filter hv))
    ⟨List.nodup_nil, fun field hfield => absurd hfield List.not_mem_nil⟩
  unfold merge
  dsimp only
  split
  · exact isWellFormed_map.mpr hresult
  · exact isWellFormed_object.mpr hresult

theorem zipmap_returns (keys : List Value) {values : List Value}
    (h : ∀ v ∈ values, v.IsWellFormed) : Returns IsWellFormed (zipmap keys values) := by
  refine (returns_true _).bind fun names _ _ => ?_
  refine .ite (fun _ => .fail_bind) fun _ => .pure ?_
  have hentries : ∀ entry ∈ names.zip values, entry.2.IsWellFormed :=
    fun entry hentry => h entry.2 (List.of_mem_zip hentry).2
  have hfields := putAll_wellFormed hentries (t := [])
    ⟨List.nodup_nil, fun field hfield => absurd hfield List.not_mem_nil⟩
  split
  · exact isWellFormed_map.mpr hfields
  · exact isWellFormed_object.mpr hfields

theorem lookupKey_returns {fields : List (String × Value)}
    (hfields : ∀ f ∈ fields, f.2.IsWellFormed) (key : String) {default : Option Value}
    (hdefault : ∀ v ∈ default, v.IsWellFormed) :
    Returns IsWellFormed (lookupKey fields key default) := by
  unfold lookupKey
  split
  · rename_i v hfound
    refine .ok ?_
    cases hget : Table.get? fields key with
    | none =>
      rw [hget, Option.none_or] at hfound
      exact hdefault v hfound
    | some u =>
      rw [hget, Option.some_or] at hfound
      cases hfound
      exact hfields _ (Table.mem_of_get?_eq_some hget)
  · exact .fail

mutual

/-- What a well-formed value contributes to a flat list is well formed. -/
theorem leaves_wellFormed {v : Value} (h : v.IsWellFormed) : ∀ u ∈ leaves v, u.IsWellFormed := by
  match v with
  | .list items =>
    simp only [leaves]
    exact leavesOfAll_wellFormed (isWellFormed_list.mp h)
  | .null | .bool _ | .number _ | .string _ | .set _ | .map _ | .object _ | .unknown =>
    simp only [leaves, List.forall_mem_singleton]
    exact h

theorem leavesOfAll_wellFormed {vs : List Value} (h : ∀ v ∈ vs, v.IsWellFormed) :
    ∀ u ∈ leavesOfAll vs, u.IsWellFormed := by
  match vs with
  | [] => exact fun u hu => absurd hu List.not_mem_nil
  | v :: vs =>
    obtain ⟨hv, hvs⟩ := List.forall_mem_cons.mp h
    simp only [leavesOfAll, List.forall_mem_append]
    exact ⟨leaves_wellFormed hv, leavesOfAll_wellFormed hvs⟩

end

theorem elementAt_returns {items : List Value} (h : ∀ v ∈ items, v.IsWellFormed) (index : Value) :
    Returns IsWellFormed (Library.elementAt items index) := by
  refine (returns_true _).bind fun position _ _ => ?_
  refine .ite (fun _ => .fail_bind) fun _ => .ite (fun _ => .fail_bind) fun _ => ?_
  split
  · rename_i item hfound
    exact .pure (h item (List.mem_of_getElem? hfound))
  · exact .fail

theorem coalesce_returns {args : List Value} (h : ∀ v ∈ args, v.IsWellFormed) :
    Returns IsWellFormed (coalesce args) := by
  induction args with
  | nil => exact .fail
  | cons arg args ih =>
    obtain ⟨harg, hargs⟩ := List.forall_mem_cons.mp h
    exact .ite (fun _ => ih hargs) fun _ => .ok harg

theorem compact_returns {items : List Value} (h : ∀ v ∈ items, v.IsWellFormed) :
    Returns (fun found => ∀ v ∈ found, v.IsWellFormed) (compact items) := by
  induction items with
  | nil => exact .ok h
  | cons item items ih =>
    obtain ⟨hitem, hitems⟩ := List.forall_mem_cons.mp h
    refine .ite (fun _ => ih hitems) fun _ => .ite (fun _ => .fail_bind) fun _ => ?_
    exact (ih hitems).bind fun found _ hfound =>
      .pure (List.forall_mem_cons.mpr ⟨hitem, hfound⟩)

theorem slice_returns {items : List Value} (h : ∀ v ∈ items, v.IsWellFormed)
    (start stop : Value) : Returns IsWellFormed (slice items start stop) := by
  refine (returns_true _).bind fun first _ _ => (returns_true _).bind fun last _ _ => ?_
  refine .ite (fun _ => ?_) fun _ => .ite (fun _ => ?_) fun _ => .pure ?_
  · exact (returns_true _).bind fun _ _ _ => .fail_bind
  · exact (returns_true _).bind fun _ _ _ => .fail_bind
  · refine isWellFormed_list.mpr fun v hv => h v ?_
    exact List.mem_of_mem_take (List.mem_of_mem_drop hv)

theorem isWellFormed_listOf {α : Type} {f : α → Value} (hf : ∀ a, (f a).isCollection = false)
    (as : List α) : (Value.list (as.map f)).IsWellFormed := by
  refine isWellFormed_list.mpr fun v hv => ?_
  obtain ⟨a, _, rfl⟩ := List.mem_map.mp hv
  exact isWellFormed_plain (hf a)

theorem collectionFunctions_keep : ∀ f ∈ collectionFunctions, f.Keeps := by
  have htext : ∀ s, (Value.string s).isCollection = false := fun _ => rfl
  simp only [collectionFunctions, List.forall_mem_cons, List.not_mem_nil, false_imp_iff,
    implies_true, and_true]
  refine ⟨?merge, ?flatten, ?distinct, ?concat, ?lookup, ?zipmap, ?length, ?keys, ?values,
    ?contains, ?element, ?coalesce, ?compact, ?range, ?slice, ?reverse, ?sort⟩ <;>
    intro args hargs <;> dsimp only
  case merge => exact .ok (merge_wellFormed hargs)
  case flatten =>
    split
    · exact .ok (isWellFormed_list.mpr (leavesOfAll_wellFormed (hargs _ List.mem_cons_self).items))
    · exact .fail
  case distinct =>
    split
    · refine .ok (isWellFormed_list.mpr fun v hv => ?_)
      exact isWellFormed_list.mp (hargs _ List.mem_cons_self) v (mem_of_mem_distinct hv)
    · exact .fail
  case concat =>
    refine .ok (isWellFormed_list.mpr fun v hv => ?_)
    obtain ⟨arg, harg, hv⟩ := List.mem_flatMap.mp hv
    exact (hargs arg harg).items v hv
  case lookup =>
    split
    · exact lookupKey_returns (hargs _ List.mem_cons_self).fields.2 _ fun v hv => by cases hv
    · refine lookupKey_returns (hargs _ List.mem_cons_self).fields.2 _ fun v hv => ?_
      cases hv
      exact hargs _ (by simp)
    · exact .fail
  case zipmap =>
    split
    · exact zipmap_returns _ (isWellFormed_list.mp (hargs _ (by simp)))
    · exact .fail
  case length =>
    split
    · unfold lengthOf
      split
      · exact .ok (isWellFormed_plain rfl)
      · split
        · exact .ok (isWellFormed_plain rfl)
        · exact .fail
    · exact .fail
  case keys =>
    split
    · exact .ok (isWellFormed_listOf (fun _ => rfl) _)
    · exact .fail
  case values =>
    split
    · refine .ok (isWellFormed_list.mpr fun v hv => ?_)
      obtain ⟨field, hfield, rfl⟩ := List.mem_map.mp hv
      exact (hargs _ List.mem_cons_self).fields.2 field (Sorting.mem_sortBy.mp hfield)
    · exact .fail
  case contains =>
    split
    · exact .ok (isWellFormed_plain rfl)
    · exact .fail
  case element =>
    split
    · exact elementAt_returns (isWellFormed_list.mp (hargs _ List.mem_cons_self)) _
    · exact .fail
  case coalesce => exact coalesce_returns hargs
  case compact =>
    split
    · exact (compact_returns (isWellFormed_list.mp (hargs _ List.mem_cons_self))).map
        fun _ => isWellFormed_list.mpr
    · exact .fail
  case range =>
    refine (returns_true _).bind fun ns _ _ => (returns_true _).bind fun found _ _ => .pure ?_
    exact isWellFormed_listOf (fun _ => rfl) found
  case slice =>
    split
    · exact slice_returns (isWellFormed_list.mp (hargs _ List.mem_cons_self)) _ _
    · exact .fail
  case reverse =>
    split
    · refine .ok (isWellFormed_list.mpr fun v hv => ?_)
      exact isWellFormed_list.mp (hargs _ List.mem_cons_self) v (List.mem_reverse.mp hv)
    · exact .fail
  case sort =>
    split
    · exact (returns_true _).bind fun found _ _ => .pure (isWellFormed_listOf htext _)
    · exact .fail

/-! ## The other functions -/

theorem numberFunction_keeps (name : String) (run : Decimal → Outcome Decimal) :
    (numberFunction name run).Keeps := by
  intro args _
  unfold numberFunction
  dsimp only
  split
  · exact returns_map_plain _ fun _ => rfl
  · exact .fail

theorem pickFunction_keeps (name : String) (pick : Decimal → List Decimal → Decimal) :
    (pickFunction name pick).Keeps := by
  intro args _
  refine (returns_true _).bind fun ns _ _ => ?_
  split
  · exact .pure (isWellFormed_plain rfl)
  · exact .fail

theorem numericFunctions_keep : ∀ f ∈ numericFunctions, f.Keeps := by
  simp only [numericFunctions, List.forall_mem_cons, List.not_mem_nil, false_imp_iff,
    implies_true, and_true]
  refine ⟨pickFunction_keeps _ _, pickFunction_keeps _ _, numberFunction_keeps _ _,
    numberFunction_keeps _ _, numberFunction_keeps _ _, ?power, numberFunction_keeps _ _, ?sum⟩ <;>
    intro args _
  case power =>
    unfold powerFunction
    dsimp only
    split
    · exact returns_map_plain _ fun _ => rfl
    · exact .fail
  case sum =>
    dsimp only
    split
    · exact returns_map_plain _ fun _ => rfl
    · exact .fail

theorem textFunction_keeps (name : String) (run : String → String) :
    (textFunction name run).Keeps := by
  intro args _
  unfold textFunction
  dsimp only
  split
  · exact .ok (isWellFormed_plain rfl)
  · exact .fail

theorem textFunctions_keep : ∀ f ∈ textFunctions, f.Keeps := by
  simp only [textFunctions, List.forall_mem_cons, List.not_mem_nil, false_imp_iff,
    implies_true, and_true]
  refine ⟨textFunction_keeps _ _, textFunction_keeps _ _, textFunction_keeps _ _,
    ?join, ?split, ?replace, ?substr⟩ <;> intro args _ <;> dsimp only
  case join =>
    split
    · exact (returns_true _).bind fun _ _ _ => .pure (isWellFormed_plain rfl)
    · exact .fail
  case split =>
    split
    · exact .ok (isWellFormed_listOf (fun _ => rfl) _)
    · exact .fail
  case replace =>
    split
    · exact returns_map_plain _ fun _ => rfl
    · exact .fail
  case substr =>
    split
    · exact returns_map_plain _ fun _ => rfl
    · exact .fail

theorem formatFunction_keeps : formatFunction.Keeps := by
  intro args _
  unfold formatFunction
  dsimp only
  split
  · exact returns_map_plain _ fun _ => rfl
  · exact .fail

theorem conversionFunction_keeps {name : String} {policy : UnknownPolicy}
    {run : Value → Outcome Value}
    (hrun : ∀ v : Value, v.IsWellFormed → Returns IsWellFormed (run v)) :
    (conversionFunction name policy run).Keeps := by
  intro args hargs
  unfold conversionFunction
  dsimp only
  split
  · exact hrun _ (hargs _ List.mem_cons_self)
  · exact .fail

theorem conversionFunctions_keep : ∀ f ∈ conversionFunctions, f.Keeps := by
  simp only [conversionFunctions, List.forall_mem_cons, List.not_mem_nil, false_imp_iff,
    implies_true, and_true]
  exact ⟨conversionFunction_keeps fun v _ => toStringValue_returns v,
    conversionFunction_keeps fun v _ => toNumberValue_returns v,
    conversionFunction_keeps fun v _ => toBoolValue_returns v,
    conversionFunction_keeps fun v => toListValue_returns,
    conversionFunction_keeps fun v => toSetValue_returns,
    conversionFunction_keeps fun v => toMapValue_returns,
    conversionFunction_keeps fun v _ => returns_map_plain _ fun _ => rfl⟩

theorem networkFunctions_keep : ∀ f ∈ networkFunctions, f.Keeps := by
  simp only [networkFunctions, List.forall_mem_cons, List.not_mem_nil, false_imp_iff,
    implies_true, and_true]
  refine ⟨?subnet, ?host, ?netmask, ?subnets⟩ <;> intro args _ <;> dsimp only
  case subnet =>
    split
    · refine (returns_true _).bind fun _ _ _ => (returns_true _).bind fun _ _ _ => ?_
      exact (returns_true _).bind fun _ _ _ => .pure (isWellFormed_plain rfl)
    · exact .fail
  case host =>
    split
    · refine (returns_true _).bind fun _ _ _ => ?_
      exact (returns_true _).bind fun _ _ _ => .pure (isWellFormed_plain rfl)
    · exact .fail
  case netmask =>
    split
    · exact returns_map_plain _ fun _ => rfl
    · exact .fail
  case subnets =>
    split
    · refine (returns_true _).bind fun _ _ _ => (returns_true _).bind fun _ _ _ => .pure ?_
      exact isWellFormed_listOf (fun _ => rfl) _
    · exact .fail

theorem standard_keeps : ∀ f ∈ standard, f.Keeps := by
  simp only [standard, List.forall_mem_append, List.forall_mem_singleton]
  exact ⟨⟨⟨⟨⟨collectionFunctions_keep, numericFunctions_keep⟩, textFunctions_keep⟩,
    formatFunction_keeps⟩, conversionFunctions_keep⟩, networkFunctions_keep⟩

/-- A call of the standard library with well-formed arguments has a well-formed result. -/
theorem call_returns (name : String) {args : List Value} (h : ∀ v ∈ args, v.IsWellFormed)
    (span : Option Span) : Returns IsWellFormed (standard.call name args span) := by
  unfold call
  cases hfound : standard.find? name with
  | none => exact .fail
  | some f =>
    have hmem : f ∈ standard := List.mem_reverse.mp (List.mem_of_find?_eq_some hfound)
    refine Function.invoke_yields (isWellFormed_plain rfl) ?_ span
    exact (standard_keeps f hmem args h).mono (fun _ _ => .inr trivial) fun _ hv => hv

end Library

/-! ## Evaluation -/

/-- **Evaluation keeps values well formed.**  If every literal of an expression is well formed, and
every value that its scope yields, then so is every value of the expression. -/
theorem evaluate_wellFormed (e : Expr) (scope : Scope)
    (hliterals : ∀ span v, Expr.literal span v ∈ e.subexpressions → v.IsWellFormed)
    (hscope : ∀ path span v, scope.lookup path span = .ok v → v.IsWellFormed) (v : Value)
    (h : e.evaluate Library.standard scope = .ok v) : v.IsWellFormed := by
  have hadmitted : ∀ x ∈ e.subexpressions,
      x.Admitted Library.standard (fun _ => True) IsWellFormed := by
    intro x hx
    refine ⟨fun _ _ => trivial, fun _ => trivial, ?_⟩
    cases x with
    | literal span v => exact hliterals span v hx
    | call span function arguments =>
      exact fun _ _ args span' hargs => Library.call_returns function hargs span'
    | _ => trivial
  have hgives : scope.Gives (fun _ => True) IsWellFormed := fun path span =>
    ⟨hscope path span, fun _ _ => trivial⟩
  exact (e.evaluate_yields hereditary_isWellFormed hadmitted hgives).result v h

/-- `toset([x, 2, x])` where `x` is the set of 1 and 2. -/
theorem evaluate_wellFormed_nested :
    let x := SymbolPath.bound "x"
    let pair : Value := .set [.ofNat 1, .ofNat 2]
    let scope := Scope.child [] [(x, pair)]
    let e : Expr := .call none "toset" [.list none [.ref none x, .literal none (.ofNat 2),
      .ref none x]]
    e.evaluate Library.standard scope = .ok (.set [.ofNat 2, pair])
      ∧ (Value.set [.ofNat 2, pair]).IsWellFormed := by
  intro x pair scope e
  have hvalue : e.evaluate Library.standard scope = .ok (.set [.ofNat 2, pair]) := by
    cbv
  have hpair : pair.IsWellFormed := by
    refine isWellFormed_set.mpr ⟨?_, rfl, ?_⟩
    · simp only [List.pairwise_cons, List.mem_singleton, forall_eq]
      exact ⟨by cbv, fun v hv => absurd hv List.not_mem_nil, .nil⟩
    · simp only [List.forall_mem_cons]
      exact ⟨isWellFormed_plain rfl, isWellFormed_plain rfl,
        fun v hv => absurd hv List.not_mem_nil⟩
  refine ⟨hvalue, evaluate_wellFormed e scope ?_ ?_ _ hvalue⟩
  · intro span v hmem
    simp only [e, Expr.subexpressions, subexpressionsOfAll, List.cons_append, List.nil_append,
      List.mem_cons, List.not_mem_nil, reduceCtorEq, false_or, or_false, Expr.literal.injEq] at hmem
    rw [hmem.2]
    exact isWellFormed_plain rfl
  · intro path span v hfound
    by_cases hx : path = x
    · rw [hx, Scope.lookup_child_of_bound [] span (v := pair) (by cbv)] at hfound
      cases hfound
      exact hpair
    · rw [Scope.lookup_child_of_unbound [] span (by simp [Table.ofList, Table.putAll, Table.put,
        Table.get?, Ne.symm hx])] at hfound
      cases hfound

end Groundplan
