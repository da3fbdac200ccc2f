import Groundplan.Proofs.Equality.Operation
import Groundplan.Proofs.Safety.Evaluation
import Groundplan.Value.Text

/-!
# Texts of Values That Are Alike

The JSON text of a value does not depend on how the value is represented, since members are sorted.
The configuration text shows the order of fields, but whether there is one does not depend on it.

## Main Statements

- `Value.Alike.toJson_eq`: the JSON text
- `Library.shownValue_agrees`: texts for messages
-/

namespace Groundplan

/-! ## Computations that only overflow -/

/-- The only signal of a computation is that of a number that is too great. -/
def OnlyOverflows {α : Type} (x : Except Decimal.Signal α) : Prop :=
  ∀ s, x = .error s → s = .overflow

namespace OnlyOverflows

variable {α β : Type}

theorem ok (a : α) : OnlyOverflows (.ok a) :=
  fun _ h => nomatch h

theorem bind {x : Except Decimal.Signal α} {f : α → Except Decimal.Signal β}
    (hx : OnlyOverflows x) (hf : ∀ a, OnlyOverflows (f a)) : OnlyOverflows (x >>= f) := by
  cases x with
  | ok a => exact hf a
  | error s =>
    intro s' h
    cases h
    exact hx s rfl

/-- Computations that only overflow agree if they succeed together. -/
theorem concur {R : α → β → Prop} {x : Except Decimal.Signal α} {y : Except Decimal.Signal β}
    (hx : OnlyOverflows x) (hy : OnlyOverflows y) (hok : x.isOk = y.isOk)
    (hR : ∀ a b, x = .ok a → y = .ok b → R a b) : Concur Eq R x y := by
  cases x with
  | ok a =>
    cases y with
    | ok b => exact .ok (hR a b rfl rfl)
    | error s => cases hok
  | error s =>
    cases y with
    | ok b => cases hok
    | error t => exact .error ((hx s rfl).trans (hy t rfl).symm)

end OnlyOverflows

namespace Value

variable {v w : Value} {vs ws : List Value} {fs gs hs : List (String × Value)}

theorem toText_onlyOverflows (n : Decimal) : OnlyOverflows n.toText :=
  fun _ h => toText_eq_error h

/-! ## JSON text -/

mutual

theorem toJson_onlyOverflows (v : Value) : OnlyOverflows v.toJson := by
  match v with
  | .null | .unknown | .bool _ | .string _ =>
    simp only [toJson]
    exact .ok _
  | .number n =>
    simp only [toJson]
    exact toText_onlyOverflows n
  | .list items | .set items =>
    simp only [toJson]
    exact (jsonItems_onlyOverflows items).bind fun _ => .ok _
  | .map fields | .object fields =>
    simp only [toJson]
    exact (jsonFields_onlyOverflows fields).bind fun _ => .ok _

theorem jsonItems_onlyOverflows (vs : List Value) : OnlyOverflows (jsonItems vs) := by
  match vs with
  | [] => exact .ok _
  | v :: vs =>
    simp only [jsonItems]
    exact (toJson_onlyOverflows v).bind fun _ => (jsonItems_onlyOverflows vs).bind fun _ => .ok _

theorem jsonFields_onlyOverflows (fs : List (String × Value)) :
    OnlyOverflows (jsonFields fs) := by
  match fs with
  | [] => exact .ok _
  | (_, v) :: fs =>
    simp only [jsonFields]
    exact (toJson_onlyOverflows v).bind fun _ => (jsonFields_onlyOverflows fs).bind fun _ => .ok _

end

/-- In another order, the members are the same or there are none on either side. -/
theorem jsonFields_perm (h : fs.Perm gs) :
    Concur Eq List.Perm (jsonFields fs) (jsonFields gs) := by
  induction h with
  | nil => exact .ok (List.Perm.refl _)
  | cons f _ ih =>
    obtain ⟨key, v⟩ := f
    simp only [jsonFields]
    cases v.toJson with
    | ok text => exact ih.bind fun _ _ _ _ hms => .ok (hms.cons _)
    | error s => exact .error rfl
  | swap f g fs =>
    obtain ⟨key, v⟩ := f
    obtain ⟨key', w⟩ := g
    simp only [jsonFields]
    have hv := toJson_onlyOverflows v
    have hw := toJson_onlyOverflows w
    have hrest := jsonFields_onlyOverflows fs
    -- Whichever text is missing, the signal is the same.
    generalize v.toJson = x at hv
    generalize w.toJson = y at hw
    generalize jsonFields fs = z at hrest
    cases x with
    | ok text =>
      cases y with
      | ok text' =>
        cases z with
        | ok ms => exact .ok (List.Perm.swap _ _ _)
        | error s => exact .error rfl
      | error s => exact .error rfl
    | error s =>
      cases y with
      | ok text' => exact .error rfl
      | error s' => exact .error ((hw s' rfl).trans (hv s rfl).symm)
  | trans _ _ ih ih' => exact ih.trans ih' (fun _ _ _ => Eq.trans) fun _ _ _ => List.Perm.trans

theorem keys_jsonFields {members : List (String × String)} (h : jsonFields fs = .ok members) :
    Table.keys members = Table.keys fs := by
  induction fs generalizing members with
  | nil =>
    cases h
    rfl
  | cons f fs ih =>
    obtain ⟨key, v⟩ := f
    simp only [jsonFields, bind_eq_ok_iff] at h
    obtain ⟨text, _, rest, hrest, hmembers⟩ := h
    cases hmembers
    unfold Table.keys at ih ⊢
    rw [List.map_cons, List.map_cons, ih hrest]

/-- The order of different keys does not matter to the members of a JSON object. -/
theorem jsonMembers_perm {members members' : List (String × String)} (h : members.Perm members')
    (hdistinct : (Table.keys members).Nodup) : jsonMembers members = jsonMembers members' := by
  have hsimilar : Table.Similar Eq members members' :=
    ⟨hdistinct, members, Table.Related.refl (fun _ => rfl) _, h⟩
  have hsorted : Sorting.sortKeys members = Sorting.sortKeys members' := by
    have hentries := hsimilar.sortKeys.entries
    rw [← List.forall₂_eq_eq_eq]
    exact hentries.imp fun p q hpq => Prod.ext hpq.1.symm hpq.2
  rw [jsonMembers, jsonMembers, hsorted]

/-- The members of a JSON object, sorted, for fields in any order. -/
theorem jsonObject_eq (hdistinct : (Table.keys fs).Nodup) (hfields : jsonFields fs = jsonFields hs)
    (hkeys : Table.keys hs = Table.keys fs) (hperm : hs.Perm gs) :
    (do return "\x7b" ++ ",".intercalate (jsonMembers (← jsonFields fs)) ++ "\x7d"
        : Except Decimal.Signal String)
      = do return "\x7b" ++ ",".intercalate (jsonMembers (← jsonFields gs)) ++ "\x7d" := by
  have hconcur := jsonFields_perm hperm
  rw [hfields]
  generalize hms : jsonFields hs = x at hconcur
  generalize jsonFields gs = y at hconcur
  cases hconcur with
  | ok hmembers =>
    have hdistinct' := hkeys ▸ hdistinct
    rw [← keys_jsonFields hms] at hdistinct'
    have hsame := jsonMembers_perm hmembers hdistinct'
    exact congrArg (fun ms => Except.ok ("\x7b" ++ ",".intercalate ms ++ "\x7d")) hsame
  | error hst => rw [hst]

mutual

/-- The JSON text does not depend on how a value is represented. -/
theorem Alike.toJson_eq {v w : Value} (h : Alike v w) : v.toJson = w.toJson := by
  match h with
  | .null | .unknown | .bool _ | .string _ => rfl
  | .number hab => simp only [toJson, Decimal.toText_congr hab]
  | .list hitems | .set hitems => simp only [toJson, hitems.jsonItems_eq]
  | .map hdistinct hfields hperm | .object hdistinct hfields hperm =>
    simp only [toJson]
    exact jsonObject_eq hdistinct hfields.jsonFields_eq
      (fieldsAlike_iff.mp hfields).keys_eq hperm

theorem ItemsAlike.jsonItems_eq {vs ws : List Value} (h : ItemsAlike vs ws) :
    jsonItems vs = jsonItems ws := by
  match h with
  | .nil => rfl
  | .cons hhead htail => simp only [jsonItems, hhead.toJson_eq, htail.jsonItems_eq]

theorem FieldsAlike.jsonFields_eq {fs gs : List (String × Value)} (h : FieldsAlike fs gs) :
    jsonFields fs = jsonFields gs := by
  match h with
  | .nil => rfl
  | .cons hhead htail => simp only [jsonFields, hhead.toJson_eq, htail.jsonFields_eq]

end

/-! ## Configuration text -/

mutual

theorem render_onlyOverflows (v : Value) : OnlyOverflows v.render := by
  match v with
  | .null | .unknown | .bool _ | .string _ =>
    simp only [render]
    exact .ok _
  | .number n =>
    simp only [render]
    exact toText_onlyOverflows n
  | .list items | .set items =>
    simp only [render]
    exact (renderItems_onlyOverflows items).bind fun _ => .ok _
  | .map fields | .object fields =>
    simp only [render]
    exact (renderFields_onlyOverflows fields).bind fun _ => .ok _

theorem renderItems_onlyOverflows (vs : List Value) : OnlyOverflows (renderItems vs) := by
  match vs with
  | [] => exact .ok _
  | v :: vs =>
    simp only [renderItems]
    exact (render_onlyOverflows v).bind fun _ =>
      (renderItems_onlyOverflows vs).bind fun _ => .ok _

theorem renderFields_onlyOverflows (fs : List (String × Value)) :
    OnlyOverflows (renderFields fs) := by
  match fs with
  | [] => exact .ok _
  | (_, v) :: fs =>
    simp only [renderFields]
    exact (render_onlyOverflows v).bind fun _ =>
      (renderFields_onlyOverflows fs).bind fun _ => .ok _

end

/-- A step that always succeeds leaves the question whether there is a text to what comes before. -/
private theorem isOk_bind_ok {ε α β : Type} (x : Except ε α) (f : α → β) :
    (x >>= fun a => Except.ok (f a)).isOk = x.isOk := by
  cases x <;> rfl

theorem renderFields_isOk (fs : List (String × Value)) :
    (renderFields fs).isOk = fs.all fun f => f.2.render.isOk := by
  induction fs with
  | nil => rfl
  | cons f fs ih =>
    obtain ⟨key, v⟩ := f
    rw [List.all_cons, ← ih]
    simp only [renderFields]
    cases v.render with
    | ok text => exact isOk_bind_ok _ _
    | error s => rfl

mutual

theorem Alike.render_isOk {v w : Value} (h : Alike v w) : v.render.isOk = w.render.isOk := by
  match h with
  | .null | .unknown | .bool _ | .string _ => rfl
  | .number hab => simp only [render, Decimal.toText_congr hab]
  | .list hitems | .set hitems =>
    simp only [render]
    exact (isOk_bind_ok _ _).trans (hitems.renderItems_isOk.trans (isOk_bind_ok _ _).symm)
  | .map hdistinct hfields hperm | .object hdistinct hfields hperm =>
    simp only [render]
    refine (isOk_bind_ok _ _).trans (Eq.trans ?_ (isOk_bind_ok _ _).symm)
    rw [hfields.renderFields_isOk, renderFields_isOk, renderFields_isOk, hperm.all_eq]

theorem ItemsAlike.renderItems_isOk {vs ws : List Value} (h : ItemsAlike vs ws) :
    (renderItems vs).isOk = (renderItems ws).isOk := by
  match h with
  | .nil => rfl
  | .cons (v := v) (w := w) hhead htail =>
    have hv := hhead.render_isOk
    simp only [renderItems]
    generalize v.render = x at hv
    generalize w.render = y at hv
    cases x with
    | ok text =>
      cases y with
      | ok text' =>
        exact (isOk_bind_ok _ _).trans (htail.renderItems_isOk.trans (isOk_bind_ok _ _).symm)
      | error s => cases hv
    | error s =>
      cases y with
      | ok text' => cases hv
      | error t => rfl

theorem FieldsAlike.renderFields_isOk {fs gs : List (String × Value)} (h : FieldsAlike fs gs) :
    (renderFields fs).isOk = (renderFields gs).isOk := by
  match h with
  | .nil => rfl
  | .cons hhead htail =>
    have hrest := htail.renderFields_isOk
    rw [Value.renderFields_isOk, Value.renderFields_isOk] at hrest ⊢
    rw [List.all_cons, List.all_cons, hhead.render_isOk, hrest]

end

end Value

/-- A text for a message is made on both sides or on neither. -/
theorem Library.shownValue_agrees {v w : Value} (h : Value.Alike v w) :
    Agrees (fun _ _ => True) (shownValue v) (shownValue w) := by
  refine Concur.mapError ((Value.render_onlyOverflows v).concur (Value.render_onlyOverflows w)
    h.render_isOk fun _ _ _ _ => trivial) ?_
  rintro s _ rfl
  exact .refl _

end Groundplan
