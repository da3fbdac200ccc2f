import Groundplan.Library.Standard
import Groundplan.Proofs.Outcome
import Groundplan.Proofs.Refinement.Value

/-!
# Functions on Partly Unknown Arguments

A function of the library foresees itself: when its arguments are refined by others, a call
with those succeeds only if the call with the first ones does, and then its result refines
that of the first.  Three kinds of functions are told apart.

- A function whose policy is deep never runs on partly unknown arguments.
- A function of primitive arguments with the shallow policy runs on wholly known ones.
- The other functions move values about without looking into them; for each of them there
  is a lemma of its own.

## Main Statements

- `Function.Foreseeing.invoke`: checks and policies keep the relation
- `standard_foreseeing`: all functions of the standard library do
-/

namespace Groundplan

open Value

/-! ## Checked calls -/

namespace Signature

variable {s : Signature}

/-- Whether no parameter accepts a collection. -/
def isFlat (s : Signature) : Bool :=
  (s.params ++ s.variadic.toList).all fun p =>
    match p.kinds with
    | some kinds => kinds.all Kind.isPrimitive
    | none => false

/-- Whether no partly unknown argument gets past the policy. -/
def isScreened (s : Signature) : Bool :=
  s.policy == .deep || (s.policy == .shallow && s.isFlat)

/-- An argument that fits does so before parts of it have been learnt. -/
theorem argumentProblem?_eq_none {place : Nat} {p : Param} {v w : Value} (h : RefinedBy v w)
    (hw : s.argumentProblem? place p w = none) : s.argumentProblem? place p v = none := by
  cases h with
  | unknown => rfl
  | null | bool | number | string | set | list | map | object => exact hw

theorem argumentsProblem?_eq_none {args args' : List Value} (h : ItemsRefinedBy args args')
    {place : Nat} (hargs : s.argumentsProblem? place args' = none) :
    s.argumentsProblem? place args = none := by
  induction args generalizing args' place with
  | nil => rfl
  | cons v vs ih =>
    cases h with
    | @cons _ w _ ws hhead htail =>
      simp only [argumentsProblem?] at hargs ⊢
      cases hparam : s.paramAt place with
      | none =>
        simp only [hparam, Option.bind_none] at hargs ⊢
        exact ih htail hargs
      | some p =>
        simp only [hparam, Option.bind_some] at hargs ⊢
        cases hw : s.argumentProblem? place p w with
        | some problem => simp [hw] at hargs
        | none =>
          simp only [hw] at hargs
          simp only [argumentProblem?_eq_none hhead hw]
          exact ih htail hargs

/-- A call that passes the check does so before parts of the arguments have been learnt. -/
theorem problem?_eq_none {args args' : List Value} (h : ItemsRefinedBy args args')
    (hargs : s.problem? args' = none) : s.problem? args = none := by
  have hlength : args.length = args'.length := (itemsRefinedBy_iff.mp h).length_eq
  unfold problem? at hargs ⊢
  rw [hlength]
  split at hargs
  · rw [if_pos ‹_›]
    exact argumentsProblem?_eq_none h hargs
  · cases hargs

/-- A primitive argument that fits is wholly known or null. -/
theorem eq_of_argumentProblem? {place : Nat} {p : Param} {kinds : List Kind} {v w : Value}
    (hkinds : p.kinds = some kinds) (hflat : kinds.all Kind.isPrimitive = true)
    (h : RefinedBy v w) (hv : v.isUnknown = false)
    (hfits : s.argumentProblem? place p v = none) : w = v := by
  cases h with
  | unknown => simp [Value.isUnknown] at hv
  | null | bool | number | string | set => rfl
  | list | map | object =>
    have hmem := fun k hk => List.all_eq_true.mp hflat k hk
    simp only [argumentProblem?, Param.accepts, hkinds, Value.kind] at hfits
    split at hfits
    · rename_i haccepts
      have := hmem _ (List.contains_iff_mem.mp haccepts)
      simp [Kind.isPrimitive] at this
    · cases hfits

/-- Arguments of a flat signature that fit and are not unknown stay as they are. -/
theorem eq_of_argumentsProblem? (hflat : s.isFlat = true) {args args' : List Value}
    (h : ItemsRefinedBy args args') {place : Nat}
    (hcount : s.variadic.isSome = true ∨ place + args.length ≤ s.params.length)
    (hargs : s.argumentsProblem? place args = none)
    (hknown : args.any Value.isUnknown = false) : args' = args := by
  induction args generalizing args' place with
  | nil => cases h; rfl
  | cons v vs ih =>
    cases h with
    | @cons _ w _ ws hhead htail =>
      simp only [List.any_cons, Bool.or_eq_false_iff] at hknown
      obtain ⟨p, hparam⟩ : ∃ p, s.paramAt place = some p := by
        unfold paramAt
        rcases hcount with hvariadic | hlength
        · obtain ⟨q, hq⟩ := Option.isSome_iff_exists.mp hvariadic
          cases s.params[place]? <;> simp [hq]
        · have hlt : place < s.params.length := by
            simp only [List.length_cons] at hlength
            omega
          simp [List.getElem?_eq_getElem hlt]
      have hp : p ∈ s.params ++ s.variadic.toList := by
        unfold paramAt at hparam
        cases hfound : s.params[place]? with
        | some q =>
          simp only [hfound, Option.some_or, Option.some.injEq] at hparam
          exact List.mem_append_left _ (hparam ▸ List.mem_of_getElem? hfound)
        | none =>
          simp only [hfound, Option.none_or] at hparam
          exact List.mem_append_right _ (by simp [hparam])
      have hprimitive := List.all_eq_true.mp hflat p hp
      simp only [argumentsProblem?, hparam, Option.bind_some] at hargs
      cases hv : s.argumentProblem? place p v with
      | some problem => simp [hv] at hargs
      | none =>
        simp only [hv] at hargs
        have hrest : s.variadic.isSome = true ∨ place + 1 + vs.length ≤ s.params.length := by
          rcases hcount with hvariadic | hlength
          · exact .inl hvariadic
          · simp only [List.length_cons] at hlength
            omega
        rw [ih htail hrest hargs hknown.2]
        cases hkinds : p.kinds with
        | none => simp [hkinds] at hprimitive
        | some kinds =>
          rw [eq_of_argumentProblem? hkinds (by simpa [hkinds] using hprimitive) hhead hknown.1 hv]

/-- A call with a result that is not unknown by policy is none after more has been learnt. -/
theorem isUnknownCall_eq_false {args args' : List Value} (h : ItemsRefinedBy args args')
    (hknown : s.isUnknownCall args = false) : s.isUnknownCall args' = false := by
  unfold isUnknownCall at hknown ⊢
  cases hpolicy : s.policy with
  | accept => rfl
  | deep =>
    simp only [hpolicy] at hknown ⊢
    rw [h.eq_of_known hknown]
    exact hknown
  | shallow =>
    simp only [hpolicy] at hknown ⊢
    induction args generalizing args' with
    | nil => cases h; rfl
    | cons v vs ih =>
      cases h with
      | cons hhead htail =>
        simp only [List.any_cons, Bool.or_eq_false_iff] at hknown ⊢
        exact ⟨hhead.isUnknown_eq_false hknown.1, ih htail hknown.2⟩

end Signature

/-! ## Functions that foresee themselves -/

/-- A function that foresees itself on all checked calls that its policy lets through. -/
def Function.Foreseeing (f : Function) : Prop :=
  ∀ args args' : List Value, ItemsRefinedBy args args' → f.signature.problem? args = none →
    f.signature.isUnknownCall args = false → Foresees RefinedBy (f.run args) (f.run args')

namespace Function

/-- The deep policy lets only wholly known arguments through. -/
theorem foreseeing_of_deep {f : Function} (hdeep : f.signature.policy = .deep) :
    f.Foreseeing := by
  intro args args' h _ hknown
  simp only [Signature.isUnknownCall, hdeep] at hknown
  rw [h.eq_of_known hknown]
  exact .of_eq RefinedBy.refl

/-- Primitive arguments that are not unknown are wholly known. -/
theorem foreseeing_of_flat {f : Function} (hshallow : f.signature.policy = .shallow)
    (hflat : f.signature.isFlat = true) : f.Foreseeing := by
  intro args args' h hfits hknown
  simp only [Signature.isUnknownCall, hshallow] at hknown
  have hcount : f.signature.acceptsCount args.length = true := by
    unfold Signature.problem? at hfits
    split at hfits
    · assumption
    · cases hfits
  have hargs : f.signature.argumentsProblem? 0 args = none := by
    simpa [Signature.problem?, hcount] using hfits
  have hplaces : f.signature.variadic.isSome = true
      ∨ 0 + args.length ≤ f.signature.params.length := by
    simp only [Signature.acceptsCount, Bool.and_eq_true, Bool.or_eq_true,
      decide_eq_true_eq] at hcount
    simpa using hcount.2
  rw [Signature.eq_of_argumentsProblem? hflat h hplaces hargs hknown]
  exact .of_eq RefinedBy.refl

/-- A function that only runs on wholly known arguments. -/
theorem foreseeing_of_screened {f : Function} (hscreened : f.signature.isScreened = true) :
    f.Foreseeing := by
  simp only [Signature.isScreened, Bool.or_eq_true, Bool.and_eq_true, beq_iff_eq] at hscreened
  rcases hscreened with hdeep | ⟨hshallow, hflat⟩
  · exact foreseeing_of_deep hdeep
  · exact foreseeing_of_flat hshallow hflat

/-- Checks and policies keep the relation. -/
theorem Foreseeing.invoke {f : Function} (hf : f.Foreseeing) {args args' : List Value}
    (h : ItemsRefinedBy args args') (span : Option Span) :
    Foresees RefinedBy (f.invoke args span) (f.invoke args' span) := by
  intro w hw
  unfold Function.invoke at hw ⊢
  cases hfits' : f.signature.problem? args' with
  | some problem =>
    rw [hfits'] at hw
    cases hw
  | none =>
    have hfits := Signature.problem?_eq_none h hfits'
    rw [hfits]
    rw [hfits'] at hw
    simp only at hw ⊢
    cases hknown : f.signature.isUnknownCall args with
    | true =>
      -- The policy answers unknown in place of the function.
      exact ⟨.unknown, rfl, .unknown w⟩
    | false =>
      rw [Signature.isUnknownCall_eq_false h hknown] at hw
      simp only [Bool.false_eq_true, if_false] at hw ⊢
      cases hrun' : f.run args' with
      | error fault =>
        -- Whatever the function stops with, the call stops with some fault.
        rw [hrun'] at hw
        rcases fault with e | d
        · cases hw
        · cases d <;> cases hw
      | ok result =>
        obtain ⟨v, hrun, hvw⟩ := hf args args' h hfits hknown result hrun'
        rw [hrun'] at hw
        rw [hrun]
        cases hw
        exact ⟨v, rfl, hvw⟩

end Function

/-- Calls of a library by name keep the relation if all its functions do. -/
theorem Library.call_foresees {library : Library} (hall : ∀ f ∈ library, f.Foreseeing)
    (name : String) {args args' : List Value} (h : ItemsRefinedBy args args')
    (span : Option Span) :
    Foresees RefinedBy (library.call name args span) (library.call name args' span) := by
  unfold Library.call
  cases hfound : library.find? name with
  | none => exact .error _ _
  | some f =>
    have hmem : f ∈ library := List.mem_reverse.mp (List.mem_of_find?_eq_some hfound)
    exact Function.Foreseeing.invoke (hall f hmem) h span

/-! ## Functions that move values about -/

section Moving

variable {args args' : List Value}

/-- The shallow policy lets no argument through that is unknown itself. -/
private theorem known_of_shallow {f : Function} (hshallow : f.signature.policy = .shallow)
    (hknown : f.signature.isUnknownCall args = false) :
    ∀ v ∈ args, v.isUnknown = false := by
  simpa [Signature.isUnknownCall, hshallow] using hknown

/-- Nulls have their places before more is learnt. -/
theorem filter_not_null_refinedBy (h : ItemsRefinedBy args args')
    (hknown : ∀ v ∈ args, v.isUnknown = false) :
    ItemsRefinedBy (args.filter fun arg => !arg.isNull) (args'.filter fun arg => !arg.isNull) := by
  induction args generalizing args' with
  | nil => cases h; exact .nil
  | cons v vs ih =>
    cases h with
    | @cons _ w _ ws hhead htail =>
      have hrest := ih htail fun u hu => hknown u (List.mem_cons_of_mem v hu)
      have hnull : w.isNull = v.isNull := by
        have hv := hknown v (by simp)
        cases hhead with
        | unknown => simp [Value.isUnknown] at hv
        | null | bool | number | string | set | list | map | object => rfl
      simp only [List.filter_cons, hnull]
      split
      · exact .cons hhead hrest
      · exact hrest

/-- Tables of fields may be stored one over the other on both sides. -/
theorem mergedFields_refinedBy (h : ItemsRefinedBy args args')
    (hknown : ∀ v ∈ args, v.isUnknown = false) {fs gs : List (String × Value)}
    (hfields : FieldsRefinedBy fs gs) :
    FieldsRefinedBy
      (args.foldl (fun fields arg => Table.putAll fields (arg.fields?.getD [])) fs)
      (args'.foldl (fun fields arg => Table.putAll fields (arg.fields?.getD [])) gs) := by
  induction args generalizing args' fs gs with
  | nil => cases h; exact hfields
  | cons v vs ih =>
    cases h with
    | cons hhead htail =>
      exact ih htail (fun u hu => hknown u (List.mem_cons_of_mem v hu))
        (hfields.putAll (hhead.fields (hknown v (by simp))))

theorem all_kind_eq (h : ItemsRefinedBy args args') (hknown : ∀ v ∈ args, v.isUnknown = false)
    (kind : Kind) : (args'.all (·.kind == kind)) = args.all (·.kind == kind) := by
  induction args generalizing args' with
  | nil => cases h; rfl
  | cons v vs ih =>
    cases h with
    | cons hhead htail =>
      rw [List.all_cons, List.all_cons, hhead.kind_eq (hknown v (by simp)),
        ih htail fun u hu => hknown u (List.mem_cons_of_mem v hu)]

theorem merge_refinedBy (h : ItemsRefinedBy args args')
    (hknown : ∀ v ∈ args, v.isUnknown = false) :
    RefinedBy (Library.merge args) (Library.merge args') := by
  have hgiven := filter_not_null_refinedBy h hknown
  have hgivenKnown : ∀ v ∈ args.filter fun arg => !arg.isNull, v.isUnknown = false :=
    fun v hv => hknown v (List.mem_of_mem_filter hv)
  have hempty : (args'.filter fun arg => !arg.isNull).isEmpty
      = (args.filter fun arg => !arg.isNull).isEmpty := by
    generalize args.filter (fun arg => !arg.isNull) = given at hgiven
    generalize args'.filter (fun arg => !arg.isNull) = given' at hgiven
    cases hgiven <;> rfl
  have hmerged := mergedFields_refinedBy hgiven hgivenKnown .nil
  unfold Library.merge
  simp only
  rw [all_kind_eq hgiven hgivenKnown, hempty]
  split
  · exact .map hmerged
  · exact .object hmerged

theorem concat_refinedBy (h : ItemsRefinedBy args args')
    (hknown : ∀ v ∈ args, v.isUnknown = false) :
    RefinedBy (Library.concat args) (Library.concat args') := by
  refine .list ?_
  induction args generalizing args' with
  | nil => cases h; exact .nil
  | cons v vs ih =>
    cases h with
    | cons hhead htail =>
      simp only [List.flatMap_cons]
      exact (hhead.items (hknown v (by simp))).append
        (ih htail fun u hu => hknown u (List.mem_cons_of_mem v hu))

/-- The first argument that is neither null nor empty has its place before it is learnt. -/
theorem coalesce_foresees (h : ItemsRefinedBy args args') :
    Foresees RefinedBy (Library.coalesce args) (Library.coalesce args') := by
  induction args generalizing args' with
  | nil => cases h; exact .error _ _
  | cons v vs ih =>
    cases h with
    | @cons _ w _ ws hhead htail =>
      simp only [Library.coalesce]
      cases hhead with
      | unknown => exact .of_forall _ .unknown
      | null => exact ih htail
      | string s =>
        split
        · exact ih htail
        · exact .ok (.string s)
      | bool b => exact .ok (.bool b)
      | number n => exact .ok (.number n)
      | set items => exact .ok (.set items)
      | list hitems => exact .ok (.list hitems)
      | map hfields => exact .ok (.map hfields)
      | object hfields => exact .ok (.object hfields)

theorem lookupKey_foresees {fs gs : List (String × Value)} (h : FieldsRefinedBy fs gs)
    (key : String) {default default' : Option Value}
    (hdefault : Option.Rel RefinedBy default default') :
    Foresees RefinedBy (Library.lookupKey fs key default)
      (Library.lookupKey gs key default') := by
  have hget := h.related.get? key
  unfold Library.lookupKey
  generalize Table.get? fs key = found at hget
  generalize Table.get? gs key = found' at hget
  cases hget with
  | some hv => exact .ok hv
  | none =>
    cases hdefault with
    | some hv => exact .ok hv
    | none => exact .error _ _

theorem lengthOf_foresees {v w : Value} (h : RefinedBy v w) (hv : v.isUnknown = false) :
    Foresees RefinedBy (Library.lengthOf v) (Library.lengthOf w) := by
  cases h with
  | unknown => simp [Value.isUnknown] at hv
  | string s => exact .of_eq RefinedBy.refl
  | null | bool | number => exact .error _ _
  | set items => exact .of_eq RefinedBy.refl
  | list hitems =>
    have hlength := (itemsRefinedBy_iff.mp hitems).length_eq
    simp only [Library.lengthOf, Value.length?, hlength]
    exact .of_eq RefinedBy.refl
  | map hfields | object hfields =>
    simp only [Library.lengthOf, Value.length?, hfields.length_eq]
    exact .of_eq RefinedBy.refl

/-- A whole number is read from a known number, and from nothing else. -/
theorem wholeNumber_foresees (function : String) (position : Int) {v w : Value}
    (h : RefinedBy v w) (hv : v.isUnknown = false) :
    Foresees Eq (Library.wholeNumber function position v)
      (Library.wholeNumber function position w) := by
  cases h with
  | unknown => simp [Value.isUnknown] at hv
  | number n => exact .of_eq fun _ => rfl
  | null | bool | string | set | list | map | object =>
    unfold Library.wholeNumber
    exact .error_bind _ fun _ => ⟨_, rfl⟩

theorem elementAt_foresees {vs ws : List Value} (h : ItemsRefinedBy vs ws)
    {index index' : Value} (hindex : RefinedBy index index') (hknown : index.isUnknown = false) :
    Foresees RefinedBy (Library.elementAt vs index) (Library.elementAt ws index') := by
  have hlength := (itemsRefinedBy_iff.mp h).length_eq
  have hempty : ws.isEmpty = vs.isEmpty := by cases h <;> rfl
  unfold Library.elementAt
  refine (wholeNumber_foresees _ _ hindex hknown).bind ?_
  rintro position _ rfl
  rw [hempty, hlength]
  cases hvs : vs.isEmpty with
  | true => exact .error _ _
  | false =>
  by_cases hnegative : position < 0
  · simp only [hnegative, if_true]
    exact .error _ _
  simp only [hnegative, Bool.false_eq_true, if_false]
  have hget := h.get? (position.toNat % ws.length)
  generalize vs[position.toNat % ws.length]? = found at hget
  generalize ws[position.toNat % ws.length]? = found' at hget
  cases hget with
  | some hv => exact .ok hv
  | none => exact .error _ _

theorem slice_foresees {vs ws : List Value} (h : ItemsRefinedBy vs ws)
    {start start' stop stop' : Value} (hstart : RefinedBy start start')
    (hstartKnown : start.isUnknown = false) (hstop : RefinedBy stop stop')
    (hstopKnown : stop.isUnknown = false) :
    Foresees RefinedBy (Library.slice vs start stop) (Library.slice ws start' stop') := by
  have hlength := (itemsRefinedBy_iff.mp h).length_eq
  unfold Library.slice
  rw [hlength]
  refine (wholeNumber_foresees _ _ hstart hstartKnown).bind ?_
  rintro first _ rfl
  refine (wholeNumber_foresees _ _ hstop hstopKnown).bind ?_
  rintro last _ rfl
  dsimp only
  cases hfirst : decide (first < 0) || decide ((ws.length : Int) < first) with
  | true => exact .error_bind _ fun _ => ⟨_, rfl⟩
  | false =>
  cases hlast : decide (last < first) || decide ((ws.length : Int) < last) with
  | true => exact .error_bind _ fun _ => ⟨_, rfl⟩
  | false =>
  refine .ok (.list (itemsRefinedBy_iff.mpr ?_))
  exact List.forall₂_drop _ (List.forall₂_take _ (itemsRefinedBy_iff.mp h))

theorem reverse_refinedBy {vs ws : List Value} (h : ItemsRefinedBy vs ws) :
    ItemsRefinedBy vs.reverse ws.reverse :=
  itemsRefinedBy_iff.mpr (List.forall₂_reverse_iff.mpr (itemsRefinedBy_iff.mp h))

end Moving

/-! ## Conversions -/

theorem toStringValue_foresees {v w : Value} (h : RefinedBy v w) :
    Foresees RefinedBy v.toStringValue w.toStringValue := by
  cases h with
  | unknown => exact .of_forall _ .unknown
  | null | bool | number | string => exact .of_eq RefinedBy.refl
  | set | list | map | object => exact .error _ _

theorem toNumberValue_foresees {v w : Value} (h : RefinedBy v w) :
    Foresees RefinedBy v.toNumberValue w.toNumberValue := by
  cases h with
  | unknown => exact .of_forall _ .unknown
  | null | number | string => exact .of_eq RefinedBy.refl
  | bool | set | list | map | object => exact .error _ _

theorem toBoolValue_foresees {v w : Value} (h : RefinedBy v w) :
    Foresees RefinedBy v.toBoolValue w.toBoolValue := by
  cases h with
  | unknown => exact .of_forall _ .unknown
  | null | bool | string => exact .of_eq RefinedBy.refl
  | number | set | list | map | object => exact .error _ _

theorem toListValue_foresees {v w : Value} (h : RefinedBy v w) :
    Foresees RefinedBy v.toListValue w.toListValue := by
  cases h with
  | unknown => exact .of_forall _ .unknown
  | null | set => exact .of_eq RefinedBy.refl
  | list hitems => exact .ok (.list hitems)
  | bool | number | string | map | object => exact .error _ _

/-- A list with unknown parts converts to unknown, and any other stays as it is. -/
theorem toSetValue_foresees {v w : Value} (h : RefinedBy v w) :
    Foresees RefinedBy v.toSetValue w.toSetValue := by
  cases h with
  | unknown => exact .of_forall _ .unknown
  | null | set => exact .of_eq RefinedBy.refl
  | @list vs ws hitems =>
    cases hknown : anyContainsUnknown vs with
    | true =>
      simp only [toSetValue, hknown, if_true]
      exact .of_forall _ .unknown
    | false =>
      rw [hitems.eq_of_known hknown]
      exact .of_eq RefinedBy.refl
  | bool | number | string | map | object => exact .error _ _

/-- A list without its repetitions has two elements if two of its elements differ. -/
theorem one_lt_length_eraseDups {labels : List String} :
    1 < labels.eraseDups.length ↔ ∃ a ∈ labels, ∃ b ∈ labels, a ≠ b := by
  cases labels with
  | nil => simp
  | cons a rest =>
    rw [List.eraseDups_cons, List.length_cons, Nat.lt_add_left_iff_pos, List.length_pos_iff]
    constructor
    · intro hne
      obtain ⟨b, hb⟩ := List.exists_mem_of_ne_nil _ hne
      have hb := List.mem_filter.mp (List.mem_eraseDups.mp hb)
      exact ⟨a, by simp, b, List.mem_cons_of_mem a hb.1, fun hab => by simp [hab] at hb⟩
    · rintro ⟨b, hb, c, hc, hbc⟩ hnil
      have hall : ∀ x ∈ a :: rest, x = a := by
        intro x hx
        by_contra hxa
        have hmem : x ∈ rest.filter fun y => !y == a :=
          List.mem_filter.mpr ⟨(List.mem_cons.mp hx).resolve_left hxa, by simp [hxa]⟩
        rw [← List.mem_eraseDups, hnil] at hmem
        exact List.not_mem_nil hmem
      exact hbc ((hall b hb).trans (hall c hc).symm)

/-- Kinds that are found among fields are found again after more has been learnt. -/
theorem mem_labels_of_refinedBy {vs ws : List Value} (h : ItemsRefinedBy vs ws) {l : String}
    (hl : l ∈ (vs.filter fun v => !v.isUnknown).map label) :
    l ∈ (ws.filter fun w => !w.isUnknown).map label := by
  induction vs generalizing ws with
  | nil => simp at hl
  | cons v vs ih =>
    cases h with
    | @cons _ w _ ws hhead htail =>
      obtain ⟨u, hu, rfl⟩ := List.mem_map.mp hl
      obtain ⟨hu, hknown⟩ := List.mem_filter.mp hu
      have hknown : u.isUnknown = false := by simpa using hknown
      rcases List.mem_cons.mp hu with rfl | hu
      · refine List.mem_map.mpr ⟨w, List.mem_filter.mpr ⟨by simp, ?_⟩, hhead.label_eq hknown⟩
        simp [hhead.isUnknown_eq_false hknown]
      · have hrest := ih htail
          (List.mem_map.mpr ⟨u, List.mem_filter.mpr ⟨hu, by simp [hknown]⟩, rfl⟩)
        obtain ⟨x, hx, hxu⟩ := List.mem_map.mp hrest
        obtain ⟨hx, hxknown⟩ := List.mem_filter.mp hx
        exact List.mem_map.mpr
          ⟨x, List.mem_filter.mpr ⟨List.mem_cons_of_mem w hx, hxknown⟩, hxu⟩

/-- Mixed kinds among the known fields stay mixed. -/
theorem toMapValue_foresees {v w : Value} (h : RefinedBy v w) :
    Foresees RefinedBy v.toMapValue w.toMapValue := by
  cases h with
  | unknown => exact .of_forall _ .unknown
  | null => exact .of_eq RefinedBy.refl
  | map hfields => exact .ok (.map hfields)
  | @object fs gs hfields =>
    have hmixed : 1 < (kindLabels (fs.map Prod.snd)).length →
        1 < (kindLabels (gs.map Prod.snd)).length := by
      simp only [kindLabels, Sorting.sortTexts, Sorting.length_sortBy, one_lt_length_eraseDups]
      rintro ⟨a, ha, b, hb, hab⟩
      exact ⟨a, mem_labels_of_refinedBy hfields.values ha, b,
        mem_labels_of_refinedBy hfields.values hb, hab⟩
    by_cases hgs : 1 < (kindLabels (gs.map Prod.snd)).length
    · simp only [toMapValue, hgs, if_true]
      exact .error _ _
    · simp only [toMapValue, hgs, mt hmixed hgs, if_false]
      exact .ok (.map hfields)
  | bool | number | string | set | list => exact .error _ _

/-! ## The standard library -/

/-- Without optional and variadic parameters a checked call has an argument for each. -/
private theorem length_eq_of_fits {s : Signature} {args : List Value}
    (hrequired : s.requiredCount = s.params.length) (hvariadic : s.variadic = none)
    (hfits : s.problem? args = none) : args.length = s.params.length := by
  have hcount : s.acceptsCount args.length = true := by
    unfold Signature.problem? at hfits
    split at hfits
    · assumption
    · cases hfits
  simp only [Signature.acceptsCount, hrequired, hvariadic, Option.isSome_none,
    Bool.false_or, Bool.and_eq_true, decide_eq_true_eq] at hcount
  omega

/-- A shallow function of one argument needs to foresee itself on arguments that are not
unknown only. -/
theorem Function.foreseeing_of_singleton {f : Function}
    (hshallow : f.signature.policy = .shallow) (hparams : f.signature.params.length = 1)
    (hrequired : f.signature.requiredCount = f.signature.params.length)
    (hvariadic : f.signature.variadic = none)
    (hrun : ∀ {v w : Value}, RefinedBy v w → v.isUnknown = false →
      Foresees RefinedBy (f.run [v]) (f.run [w])) : f.Foreseeing := by
  intro args args' h hfits hknown
  have hlength := length_eq_of_fits hrequired hvariadic hfits
  obtain ⟨v, rfl⟩ := List.length_eq_one_iff.mp (hlength.trans hparams)
  cases h with
  | cons hhead htail =>
    cases htail
    exact hrun hhead (known_of_shallow hshallow hknown v (by simp))

theorem conversionFunctions_foreseeing : ∀ f ∈ Library.conversionFunctions, f.Foreseeing := by
  have hconversion : ∀ {name : String} {run : Value → Outcome Value},
      (∀ {v w : Value}, RefinedBy v w → Foresees RefinedBy (run v) (run w)) →
      (Library.conversionFunction name .shallow run).Foreseeing :=
    fun hrun => Function.foreseeing_of_singleton rfl rfl rfl rfl fun h _ => hrun h
  intro f hf
  simp only [Library.conversionFunctions, List.mem_cons, List.not_mem_nil, or_false] at hf
  rcases hf with rfl | rfl | rfl | rfl | rfl | rfl | rfl
  · exact hconversion toStringValue_foresees
  · exact hconversion toNumberValue_foresees
  · exact hconversion toBoolValue_foresees
  · exact hconversion toListValue_foresees
  · exact hconversion toSetValue_foresees
  · exact hconversion toMapValue_foresees
  · exact Function.foreseeing_of_deep rfl

theorem collectionFunctions_foreseeing : ∀ f ∈ Library.collectionFunctions, f.Foreseeing := by
  intro f hf
  simp only [Library.collectionFunctions, List.mem_cons, List.not_mem_nil, or_false] at hf
  rcases hf with rfl | rfl | rfl | rfl | rfl | rfl | rfl | rfl | rfl | rfl | rfl | rfl | rfl | rfl
    | rfl | rfl | rfl
  · -- merge
    intro args args' h _ hknown
    exact .ok (merge_refinedBy h (known_of_shallow rfl hknown))
  · exact Function.foreseeing_of_deep rfl
  · exact Function.foreseeing_of_deep rfl
  · -- concat
    intro args args' h _ hknown
    exact .ok (concat_refinedBy h (known_of_shallow rfl hknown))
  · -- lookup
    intro args args' h _ hknown
    have hknown := known_of_shallow rfl hknown
    cases h with
    | nil => exact .error _ _
    | cons hmap h =>
      have hfields := hmap.fields (hknown _ (by simp))
      cases h with
      | nil => exact .error _ _
      | @cons key _ _ _ hkey hrest =>
        have hkeyKnown := hknown key (by simp)
        cases hkey with
        | unknown => simp [Value.isUnknown] at hkeyKnown
        | string key =>
          cases hrest with
          | nil => exact lookupKey_foresees hfields key .none
          | cons hdefault hrest =>
            cases hrest with
            | nil => exact lookupKey_foresees hfields key (.some hdefault)
            | cons => exact .error _ _
        | null | bool | number | set | list | map | object => exact .error _ _
  · exact Function.foreseeing_of_deep rfl
  · -- length
    exact Function.foreseeing_of_singleton rfl rfl rfl rfl lengthOf_foresees
  · -- keys
    refine Function.foreseeing_of_singleton rfl rfl rfl rfl fun h hv => ?_
    have hkeys : ∀ fs : List (String × Value),
        fs.map (fun field => Value.string field.1) = (Table.keys fs).map Value.string := by
      intro fs
      simp [Table.keys]
    simp only [hkeys, Library.sortedFields, (h.fields hv).sortKeys.keys_eq]
    exact .of_eq RefinedBy.refl
  · -- values
    refine Function.foreseeing_of_singleton rfl rfl rfl rfl fun h hv => ?_
    exact .ok (.list (h.fields hv).sortKeys.values)
  · exact Function.foreseeing_of_deep rfl
  · -- element
    intro args args' h hfits hknown
    have hknown := known_of_shallow rfl hknown
    obtain ⟨list, index, rfl⟩ := List.length_eq_two.mp (length_eq_of_fits rfl rfl hfits)
    obtain _ | ⟨hlist, _ | ⟨hindex, _ | _⟩⟩ := h
    have hlistKnown := hknown list (by simp)
    cases hlist with
    | unknown => simp [Value.isUnknown] at hlistKnown
    | list hitems => exact elementAt_foresees hitems hindex (hknown index (by simp))
    | null | bool | number | string | set | map | object => exact .error _ _
  · -- coalesce
    intro args args' h _ _
    exact coalesce_foresees h
  · exact Function.foreseeing_of_deep rfl
  · -- range
    exact Function.foreseeing_of_flat rfl rfl
  · -- slice
    intro args args' h hfits hknown
    have hknown := known_of_shallow rfl hknown
    obtain ⟨list, start, stop, rfl⟩ :=
      List.length_eq_three.mp (length_eq_of_fits rfl rfl hfits)
    obtain _ | ⟨hlist, _ | ⟨hstart, _ | ⟨hstop, _ | _⟩⟩⟩ := h
    have hlistKnown := hknown list (by simp)
    cases hlist with
    | unknown => simp [Value.isUnknown] at hlistKnown
    | list hitems =>
      exact slice_foresees hitems hstart (hknown start (by simp)) hstop (hknown stop (by simp))
    | null | bool | number | string | set | map | object => exact .error _ _
  · -- reverse
    refine Function.foreseeing_of_singleton rfl rfl rfl rfl fun h hv => ?_
    cases h with
    | unknown => simp [Value.isUnknown] at hv
    | list hitems => exact .ok (.list (reverse_refinedBy hitems))
    | null | bool | number | string | set | map | object => exact .error _ _
  · exact Function.foreseeing_of_deep rfl

/-- The functions on numbers, strings and network prefixes run on wholly known arguments. -/
theorem screenedFunctions_foreseeing :
    ∀ f ∈ Library.numericFunctions ++ Library.textFunctions ++ [Library.formatFunction]
      ++ Library.networkFunctions, f.Foreseeing := by
  intro f hf
  have hall : ((Library.numericFunctions ++ Library.textFunctions ++ [Library.formatFunction]
      ++ Library.networkFunctions).all fun f => f.signature.isScreened) = true := by
    decide
  exact Function.foreseeing_of_screened (List.all_eq_true.mp hall f hf)

/-- All functions of the standard library foresee themselves. -/
theorem standard_foreseeing : ∀ f ∈ Library.standard, f.Foreseeing := by
  intro f hf
  simp only [Library.standard, List.mem_append] at hf
  rcases hf with ((((hf | hf) | hf) | hf) | hf) | hf
  · exact collectionFunctions_foreseeing f hf
  · exact screenedFunctions_foreseeing f (by simp [hf])
  · exact screenedFunctions_foreseeing f (by simp [hf])
  · exact screenedFunctions_foreseeing f (by simp [List.mem_singleton.mp hf])
  · exact conversionFunctions_foreseeing f hf
  · exact screenedFunctions_foreseeing f (by simp [hf])

end Groundplan
