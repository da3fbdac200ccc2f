import Groundplan.Library.Standard
import Groundplan.Proofs.Equality.Text

/-!
# Functions on Collections That Are Alike

The functions on collections move elements and fields about, look for them and count them.  None of
them sees in which order fields are listed or how a number is written.

## Main Definitions

- `Function.IsRespectful`: a function agrees on arguments that are alike

## Main Statements

- `Library.collectionFunctions_respectful`
-/

namespace Groundplan

open Value

variable {v w : Value} {vs ws : List Value} {fs gs : List (String × Value)}

/-- The function agrees on arguments that are alike. -/
def Function.IsRespectful (f : Function) : Prop :=
  ∀ args args', ItemsAlike args args' → Agrees Alike (f.run args) (f.run args')

/-- Numbers with the same values, place by place. -/
abbrev NumbersAlike : List Decimal → List Decimal → Prop :=
  List.Forall₂ fun a b => a.toRat = b.toRat

theorem ofArithmetic_agrees {α β : Type} {R : α → β → Prop} {x : Except Decimal.Signal α}
    {y : Except Decimal.Signal β} (h : Concur Eq R x y) :
    Agrees R (ofArithmetic x) (ofArithmetic y) := by
  refine Concur.mapError h ?_
  rintro s _ rfl
  exact .refl _

/-! ## Lists -/

namespace Value.ItemsAlike

theorem filter {p q : Value → Bool} (h : ItemsAlike vs ws) (hpq : ∀ v w, Alike v w → p v = q w) :
    ItemsAlike (vs.filter p) (ws.filter q) := by
  induction vs generalizing ws with
  | nil => cases h; exact .nil
  | cons v vs ih =>
    cases h with
    | cons hhead htail =>
      rw [List.filter_cons, List.filter_cons, hpq _ _ hhead]
      split
      · exact .cons hhead (ih htail)
      · exact ih htail

theorem all_eq {p q : Value → Bool} (h : ItemsAlike vs ws) (hpq : ∀ v w, Alike v w → p v = q w) :
    vs.all p = ws.all q := by
  rw [List.all_eq_not_any_not, List.all_eq_not_any_not,
    h.any_eq fun v w hvw => by rw [hpq v w hvw]]

theorem isEmpty_eq (h : ItemsAlike vs ws) : vs.isEmpty = ws.isEmpty := by
  cases h <;> rfl

theorem reverse (h : ItemsAlike vs ws) : ItemsAlike vs.reverse ws.reverse :=
  itemsAlike_iff.mpr (List.forall₂_reverse_iff.mpr (itemsAlike_iff.mp h))

theorem slice (h : ItemsAlike vs ws) (stop start : Nat) :
    ItemsAlike ((vs.take stop).drop start) ((ws.take stop).drop start) :=
  itemsAlike_iff.mpr (List.forall₂_drop _ (List.forall₂_take _ (itemsAlike_iff.mp h)))

/-- Texts as values. -/
theorem strings (texts : List String) :
    ItemsAlike (texts.map Value.string) (texts.map Value.string) := by
  induction texts with
  | nil => exact .nil
  | cons text texts ih => exact .cons (.string text) ih

/-- Numbers as values. -/
theorem numbers {as bs : List Decimal} (h : NumbersAlike as bs) :
    ItemsAlike (as.map Value.number) (bs.map Value.number) := by
  induction h with
  | nil => exact .nil
  | cons hhead _ ih => exact .cons (.number hhead) ih

/-- Values under the same names. -/
theorem zip (names : List String) (h : ItemsAlike vs ws) :
    Table.Related Alike (names.zip vs) (names.zip ws) := by
  induction names generalizing vs ws with
  | nil => exact .nil
  | cons name names ih =>
    cases h with
    | nil => exact .nil
    | cons hhead htail => exact .cons name hhead (ih htail)

end Value.ItemsAlike

namespace Library

/-! ## Arguments -/

theorem wholeNumber_agrees (function : String) (position : Int) (h : Alike v w) :
    Agrees Eq (wholeNumber function position v) (wholeNumber function position w) := by
  have hshown := shownValue_agrees h
  cases h with
  | number hab =>
    simp only [wholeNumber, Decimal.isWhole_congr hab, Decimal.toInt_congr hab]
    refine .ite Iff.rfl (fun _ => .refl _) fun _ => ?_
    exact hshown.bind fun _ _ _ _ _ => .fail (by rfl)
  | _ => exact hshown.bind fun _ _ _ _ _ => .fail (by rfl)

theorem texts_agrees (function : String) (position : Int) (h : ItemsAlike vs ws) :
    Agrees Eq (texts function position vs) (texts function position ws) := by
  induction vs generalizing ws with
  | nil => cases h; exact .refl _
  | cons v vs ih =>
    cases h with
    | cons hhead htail =>
      unfold texts
      -- The check looks at the kind only, and the texts of numbers are those of their values.
      rw [hhead.kind_eq, hhead.label_eq]
      refine .ite Iff.rfl (fun _ => .fail_bind (by rfl)) fun _ => ?_
      refine (primitiveText_agrees hhead).bind fun text _ _ _ htext => ?_
      refine (ih htail).bind fun found _ _ _ hfound => ?_
      exact .pure (by rw [htext, hfound])

theorem numbers_agrees (function : String) (position : Int) (h : ItemsAlike vs ws) :
    Agrees NumbersAlike (numbers function position vs) (numbers function position ws) := by
  induction vs generalizing ws with
  | nil => cases h; exact .ok .nil
  | cons v vs ih =>
    cases h with
    | cons hhead htail =>
      cases hhead with
      | number hab => exact (ih htail).bind fun _ _ _ _ hfound => .pure (.cons hab hfound)
      | _ => exact .fail (by rfl)

/-! ## Maps and objects -/

/-- Fields that are merged into fields that are alike. -/
theorem mergedFields_similar (h : ItemsAlike vs ws) (hfields : Table.Similar Alike fs gs) :
    Table.Similar Alike
      (vs.foldl (fun fields arg => Table.putAll fields (arg.fields?.getD [])) fs)
      (ws.foldl (fun fields arg => Table.putAll fields (arg.fields?.getD [])) gs) := by
  induction vs generalizing ws fs gs with
  | nil => cases h; exact hfields
  | cons v vs ih =>
    cases h with
    | cons hhead htail =>
      rw [List.foldl_cons, List.foldl_cons]
      exact ih htail (hfields.putAll hhead.fields)

theorem merge_alike (h : ItemsAlike vs ws) : Alike (merge vs) (merge ws) := by
  have hgiven := h.filter (p := fun arg => !arg.isNull) (q := fun arg => !arg.isNull)
    fun v w hvw => by rw [hvw.isNull_eq]
  have hkinds := hgiven.all_eq (p := fun arg => arg.kind == .map) (q := fun arg => arg.kind == .map)
    fun v w hvw => by rw [hvw.kind_eq]
  unfold merge
  dsimp only
  rw [hgiven.isEmpty_eq, hkinds]
  split
  · exact alike_map (mergedFields_similar hgiven (Table.Related.nil.similar List.nodup_nil))
  · exact alike_object (mergedFields_similar hgiven (Table.Related.nil.similar List.nodup_nil))

theorem lookupKey_agrees (h : Table.Similar Alike fs gs) (key : String)
    {default default' : Option Value} (hdefault : Option.Rel Alike default default') :
    Agrees Alike (lookupKey fs key default) (lookupKey gs key default') := by
  have hget := h.get? key
  unfold lookupKey
  generalize Table.get? fs key = found at hget
  generalize Table.get? gs key = found' at hget
  cases hget with
  | some hvw => exact .ok hvw
  | none =>
    cases hdefault with
    | some hvw => exact .ok hvw
    | none => exact .fail (by rfl)

theorem zipmap_agrees (hkeys : ItemsAlike vs ws) {values values' : List Value}
    (hvalues : ItemsAlike values values') :
    Agrees Alike (zipmap vs values) (zipmap ws values') := by
  unfold zipmap
  refine (texts_agrees "zipmap" 1 hkeys).bind ?_
  rintro names _ - - rfl
  dsimp only
  rw [hvalues.length_eq]
  refine .ite Iff.rfl (fun _ => .fail_bind (by rfl)) fun _ => ?_
  have hfields := (hvalues.zip names).ofList
  have hsimilar := hfields.similar (Table.nodup_keys_ofList _)
  have hkinds : (Table.ofList (names.zip values)).map (fun field => field.2.kind)
      = (Table.ofList (names.zip values')).map fun field => field.2.kind := by
    rw [← List.forall₂_eq_eq_eq]
    refine List.forall₂_map_left_iff.mpr (List.forall₂_map_right_iff.mpr ?_)
    exact hfields.entries.imp fun _ _ hpq => hpq.2.kind_eq
  -- Values of one kind make a map, and values of several kinds an object.
  rw [hkinds]
  split
  · exact .pure (alike_map hsimilar)
  · exact .pure (alike_object hsimilar)

theorem lengthOf_agrees (h : Alike v w) : Agrees Alike (lengthOf v) (lengthOf w) := by
  have hlength := h.length?_eq
  cases h with
  | string s => exact .ok (.number rfl)
  | null | unknown | bool | number => exact .fail (by rfl)
  | list | set | map | object =>
    simp only [length?, Option.some.injEq] at hlength
    simp only [lengthOf, length?, hlength]
    exact .ok (.number rfl)

end Library

/-! ## Lists -/

mutual

/-- Nested lists are taken apart alike. -/
theorem Value.Alike.leaves {v w : Value} (h : Alike v w) :
    ItemsAlike (Library.leaves v) (Library.leaves w) := by
  match h with
  | .list hitems =>
    simp only [Library.leaves]
    exact hitems.leavesOfAll
  | .null | .unknown | .bool _ | .string _ =>
    simp only [Library.leaves]
    exact .cons (by constructor) .nil
  | .number hab =>
    simp only [Library.leaves]
    exact .cons (.number hab) .nil
  | .set hitems =>
    simp only [Library.leaves]
    exact .cons (.set hitems) .nil
  | .map hdistinct hfields hperm =>
    simp only [Library.leaves]
    exact .cons (.map hdistinct hfields hperm) .nil
  | .object hdistinct hfields hperm =>
    simp only [Library.leaves]
    exact .cons (.object hdistinct hfields hperm) .nil

theorem Value.ItemsAlike.leavesOfAll {vs ws : List Value} (h : ItemsAlike vs ws) :
    ItemsAlike (Library.leavesOfAll vs) (Library.leavesOfAll ws) := by
  match h with
  | .nil => exact .nil
  | .cons hhead htail =>
    simp only [Library.leavesOfAll]
    exact hhead.leaves.append htail.leavesOfAll

end

namespace Library

theorem concat_alike (h : ItemsAlike vs ws) : Alike (concat vs) (concat ws) := by
  refine .list ?_
  induction vs generalizing ws with
  | nil => cases h; exact .nil
  | cons v vs ih =>
    cases h with
    | cons hhead htail =>
      simp only [List.flatMap_cons]
      exact hhead.items.append (ih htail)

theorem elementAt_agrees (h : ItemsAlike vs ws) (hindex : Alike v w) :
    Agrees Alike (elementAt vs v) (elementAt ws w) := by
  unfold elementAt
  rw [h.isEmpty_eq, h.length_eq]
  refine (wholeNumber_agrees _ _ hindex).bind ?_
  rintro position _ - - rfl
  dsimp only
  refine .ite Iff.rfl (fun _ => .fail_bind (by rfl)) fun _ => ?_
  refine .ite Iff.rfl (fun _ => .fail_bind (by rfl)) fun _ => ?_
  have hget := h.get? (position.toNat % ws.length)
  generalize vs[position.toNat % ws.length]? = found at hget
  generalize ws[position.toNat % ws.length]? = found' at hget
  cases hget with
  | some hvw => exact .pure hvw
  | none => exact .fail (by rfl)

theorem isVoid_eq (h : Alike v w) : isVoid v = isVoid w := by
  cases h <;> rfl

theorem coalesce_agrees (h : ItemsAlike vs ws) : Agrees Alike (coalesce vs) (coalesce ws) := by
  induction vs generalizing ws with
  | nil => cases h; exact .fail (by rfl)
  | cons v vs ih =>
    cases h with
    | cons hhead htail =>
      unfold coalesce
      rw [isVoid_eq hhead]
      exact .ite Iff.rfl (fun _ => ih htail) fun _ => .ok hhead

theorem compact_agrees (h : ItemsAlike vs ws) :
    Agrees ItemsAlike (compact vs) (compact ws) := by
  induction vs generalizing ws with
  | nil => cases h; exact .ok .nil
  | cons v vs ih =>
    cases h with
    | cons hhead htail =>
      unfold compact
      rw [isVoid_eq hhead, hhead.kind_eq]
      refine .ite Iff.rfl (fun _ => ih htail) fun _ => ?_
      refine .ite Iff.rfl (fun _ => .fail_bind (by rfl)) fun _ => ?_
      exact (ih htail).bind fun _ _ _ _ hfound => .pure (.cons hhead hfound)

theorem slice_agrees (h : ItemsAlike vs ws) {start start' stop stop' : Value}
    (hstart : Alike start start') (hstop : Alike stop stop') :
    Agrees Alike (slice vs start stop) (slice ws start' stop') := by
  unfold slice
  rw [h.length_eq]
  refine (wholeNumber_agrees _ _ hstart).bind ?_
  rintro first _ - - rfl
  refine (wholeNumber_agrees _ _ hstop).bind ?_
  rintro last _ - - rfl
  -- Both messages show the same bounds, so they can be written on both sides or on neither.
  have hwritten : ∀ i : Int, Agrees Eq (writeInt i) (writeInt i) := fun i => .refl _
  dsimp only
  refine .ite Iff.rfl (fun _ => ?_) fun _ => ?_
  · exact (hwritten first).bind fun _ _ _ _ _ => .fail_bind (by rfl)
  refine .ite Iff.rfl (fun _ => ?_) fun _ => ?_
  · exact (hwritten last).bind fun _ _ _ _ _ => .fail_bind (by rfl)
  exact .pure (.list (h.slice _ _))

/-! ## Ranges -/

theorem rangeFrom_agrees {limit limit' step step' : Decimal} (hlimit : limit.toRat = limit'.toRat)
    (hstep : step.toRat = step'.toRat) (hnonzero : step.coefficient ≠ 0) (room : Nat)
    {current current' : Decimal} (hcurrent : current.toRat = current'.toRat) :
    Agrees NumbersAlike (rangeFrom limit step room current)
      (rangeFrom limit' step' room current') := by
  induction room generalizing current current' with
  | zero =>
    unfold rangeFrom
    rw [Decimal.negative_congr hstep hnonzero, Decimal.less_congr hlimit hcurrent,
      Decimal.less_congr hcurrent hlimit]
    exact .ite Iff.rfl (fun _ => .ok .nil) fun _ => .fail (by rfl)
  | succ room ih =>
    -- The running number keeps its value from turn to turn, though not its digits.
    unfold rangeFrom
    rw [Decimal.negative_congr hstep hnonzero, Decimal.less_congr hlimit hcurrent,
      Decimal.less_congr hcurrent hlimit]
    refine .ite Iff.rfl (fun _ => .ok .nil) fun _ => ?_
    have hnext := Decimal.add_congr Decimal.Context.standard_isSane hcurrent hstep
    refine (ofArithmetic_agrees hnext).bind fun _ _ _ _ hnext => ?_
    exact (ih hnext).bind fun _ _ _ _ hfound => .pure (.cons hcurrent hfound)

/-- The numbers of a range whose start, limit and step are given. -/
def rangeOver (start limit step : Decimal) : Outcome (List Decimal) := do
  if step.isZero then fail (.functionCall "range" "step must not be zero") none
  let distance ← ofArithmetic (Decimal.Context.coarse.subtract limit start)
  let direction ← ofArithmetic (Decimal.Context.coarse.multiply distance step)
  if direction.sign < 0 then return []
  rangeFrom limit step rangeLimit start

theorem rangeOver_agrees {start start' limit limit' step step' : Decimal}
    (hstart : start.toRat = start'.toRat) (hlimit : limit.toRat = limit'.toRat)
    (hstep : step.toRat = step'.toRat) :
    Agrees NumbersAlike (rangeOver start limit step) (rangeOver start' limit' step') := by
  have hctx := Decimal.Context.coarse_isSane
  unfold rangeOver
  rw [Decimal.isZero_congr hstep]
  refine .ite Iff.rfl (fun _ => .fail_bind (by rfl)) fun hzero => ?_
  have hnonzero : step.coefficient ≠ 0 := by
    rwa [Decimal.isZero_iff, ← Decimal.coefficient_eq_zero_congr hstep] at hzero
  refine (ofArithmetic_agrees (Decimal.subtract_congr hctx hlimit hstart)).bind ?_
  intro distance distance' _ _ hdistance
  refine (ofArithmetic_agrees (Decimal.multiply_congr hctx hdistance hstep)).bind ?_
  intro direction direction' _ _ hdirection
  rw [Decimal.sign_congr hdirection]
  exact .ite Iff.rfl (fun _ => .pure .nil) fun _ =>
    rangeFrom_agrees hlimit hstep hnonzero rangeLimit hstart

theorem range_agrees {args args' : List Decimal} (h : NumbersAlike args args') :
    Agrees NumbersAlike (range args) (range args') := by
  have hnumber : ∀ n, (Decimal.ofNat n).toRat = (Decimal.ofNat n).toRat := fun _ => rfl
  obtain _ | ⟨hfirst, _ | ⟨hsecond, _ | ⟨hthird, _ | _⟩⟩⟩ := h
  · exact .fail_bind (by rfl)
  · exact rangeOver_agrees (hnumber 0) hfirst (hnumber 1)
  · refine rangeOver_agrees hfirst hsecond ?_
    rw [Decimal.less_congr hsecond hfirst]
  · exact rangeOver_agrees hfirst hsecond hthird
  · exact .fail_bind (by rfl)

/-! ## The functions -/

theorem collectionFunctions_respectful : ∀ f ∈ collectionFunctions, f.IsRespectful := by
  intro f hf
  simp only [collectionFunctions, List.mem_cons, List.not_mem_nil, or_false] at hf
  rcases hf with rfl | rfl | rfl | rfl | rfl | rfl | rfl | rfl | rfl | rfl | rfl | rfl | rfl | rfl
    | rfl | rfl | rfl <;> intro args args' h
  · -- merge
    exact .ok (merge_alike h)
  · -- flatten
    obtain _ | ⟨hlist, _ | _⟩ := h
    · exact .fail (by rfl)
    · exact .ok (.list hlist.items.leavesOfAll)
    · exact .fail (by rfl)
  · -- distinct
    obtain _ | ⟨hlist, hrest⟩ := h
    · exact .fail (by rfl)
    · cases hlist with
      | list hitems =>
        cases hrest with
        | nil => exact .ok (.list hitems.distinct)
        | cons => exact .fail (by rfl)
      | _ => exact .fail (by rfl)
  · -- concat
    exact .ok (concat_alike h)
  · -- lookup
    obtain _ | ⟨hmap, _ | ⟨hkey, hrest⟩⟩ := h
    · exact .fail (by rfl)
    · exact .fail (by rfl)
    · cases hkey with
      | string key =>
        obtain _ | ⟨hdefault, _ | _⟩ := hrest
        · exact lookupKey_agrees hmap.fields key .none
        · exact lookupKey_agrees hmap.fields key (.some hdefault)
        · exact .fail (by rfl)
      | _ => exact .fail (by rfl)
  · -- zipmap
    obtain _ | ⟨hkeys, hrest⟩ := h
    · exact .fail (by rfl)
    · cases hkeys with
      | list hkeys =>
        obtain _ | ⟨hvalues, hrest⟩ := hrest
        · exact .fail (by rfl)
        · cases hvalues with
          | list hvalues =>
            cases hrest with
            | nil => exact zipmap_agrees hkeys hvalues
            | cons => exact .fail (by rfl)
          | _ => exact .fail (by rfl)
      | _ => exact .fail (by rfl)
  · -- length
    obtain _ | ⟨hvalue, _ | _⟩ := h
    · exact .fail (by rfl)
    · exact lengthOf_agrees hvalue
    · exact .fail (by rfl)
  · -- keys
    obtain _ | ⟨hmap, _ | _⟩ := h
    · exact .fail (by rfl)
    · have hkeys : ∀ fs : List (String × Value),
          fs.map (fun field => Value.string field.1) = (Table.keys fs).map Value.string :=
        fun fs => by simp [Table.keys]
      simp only [hkeys, sortedFields, hmap.fields.sortKeys.keys_eq]
      exact .ok (.list (.strings _))
    · exact .fail (by rfl)
  · -- values
    obtain _ | ⟨hmap, _ | _⟩ := h
    · exact .fail (by rfl)
    · exact .ok (.list (itemsAlike_iff.mpr hmap.fields.sortKeys.values))
    · exact .fail (by rfl)
  · -- contains
    obtain _ | ⟨hlist, _ | ⟨hvalue, _ | _⟩⟩ := h
    · exact .fail (by rfl)
    · exact .fail (by rfl)
    · dsimp only
      rw [hvalue.among_congr hlist.items]
      exact .ok (.bool _)
    · exact .fail (by rfl)
  · -- element
    obtain _ | ⟨hlist, hrest⟩ := h
    · exact .fail (by rfl)
    · cases hlist with
      | list hitems =>
        obtain _ | ⟨hindex, _ | _⟩ := hrest
        · exact .fail (by rfl)
        · exact elementAt_agrees hitems hindex
        · exact .fail (by rfl)
      | _ => exact .fail (by rfl)
  · -- coalesce
    exact coalesce_agrees h
  · -- compact
    obtain _ | ⟨hlist, hrest⟩ := h
    · exact .fail (by rfl)
    · cases hlist with
      | list hitems =>
        cases hrest with
        | nil => exact (compact_agrees hitems).map fun _ _ hfound => .list hfound
        | cons => exact .fail (by rfl)
      | _ => exact .fail (by rfl)
  · -- range
    refine (numbers_agrees "range" 1 h).bind fun _ _ _ _ hnumbers => ?_
    refine (range_agrees hnumbers).bind fun _ _ _ _ hfound => .pure (.list ?_)
    exact .numbers hfound
  · -- slice
    obtain _ | ⟨hlist, hrest⟩ := h
    · exact .fail (by rfl)
    · cases hlist with
      | list hitems =>
        obtain _ | ⟨hstart, _ | ⟨hstop, _ | _⟩⟩ := hrest
        · exact .fail (by rfl)
        · exact .fail (by rfl)
        · exact slice_agrees hitems hstart hstop
        · exact .fail (by rfl)
      | _ => exact .fail (by rfl)
  · -- reverse
    obtain _ | ⟨hlist, hrest⟩ := h
    · exact .fail (by rfl)
    · cases hlist with
      | list hitems =>
        cases hrest with
        | nil => exact .ok (.list hitems.reverse)
        | cons => exact .fail (by rfl)
      | _ => exact .fail (by rfl)
  · -- sort
    obtain _ | ⟨hlist, _ | _⟩ := h
    · exact .fail (by rfl)
    · refine (texts_agrees "sort" 1 hlist.items).bind ?_
      rintro found _ - - rfl
      exact .pure (.list (.strings _))
    · exact .fail (by rfl)

end Library

end Groundplan
