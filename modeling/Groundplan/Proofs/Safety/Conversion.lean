import Groundplan.Expansion
import Groundplan.Proofs.Safety.Evaluation

/-!
# What Escapes from Conversion and Expansion

A conversion to a type comes to a defect only at a number that it has to write and cannot, or at a
text whose number it has to read and cannot.  The expansion of a template comes to one at a number
that it shows or takes for a name, or at a count with too many digits to be shown.  Each of these
defects tells what it comes from.

## Main Definitions

- `Value.Holds`: a value and everything inside it
- `Value.Resists`: a number that has no text, or a text that has no number

## Main Statements

- `Value.convert_raises`: conversion comes to a defect only at what resists it
- `Expansion.ofValue_raises`: expansion does, or at a count that is too long to be shown
-/

namespace Groundplan

namespace Value

/-- Something is the value or lies inside it, at any depth. -/
inductive Holds : Value → Value → Prop where
  | self (v : Value) : Holds v v
  | item {v w x : Value} (hw : w ∈ v.items?.getD []) (hx : Holds w x) : Holds v x
  | field {v x : Value} {f : String × Value} (hf : f ∈ v.fields?.getD []) (hx : Holds f.2 x) :
      Holds v x

/-- Converting between a number and its text comes to a defect: the number cannot be written, or
the text is formed like a number and cannot be read. -/
def Resists : Value → Defect → Prop
  | .number n, d => n.toText = .error .overflow ∧ d = .signal .overflow
  | .string s, d =>
    Numeral.isLiteral s = true ∧ (Decimal.ofText s).isOk = false ∧ d = .signal .invalidOperation
  | _, _ => False

/-- A defect comes from something inside the value. -/
def EscapesFromWithin (v : Value) (d : Defect) : Prop :=
  ∃ x, v.Holds x ∧ x.Resists d

theorem EscapesFromWithin.ofItem {v w : Value} {d : Defect} (hw : w ∈ v.items?.getD []) :
    w.EscapesFromWithin d → v.EscapesFromWithin d := by
  rintro ⟨x, hx, hd⟩
  exact ⟨x, .item hw hx, hd⟩

theorem EscapesFromWithin.ofField {v : Value} {f : String × Value} {d : Defect}
    (hf : f ∈ v.fields?.getD []) : f.2.EscapesFromWithin d → v.EscapesFromWithin d := by
  rintro ⟨x, hx, hd⟩
  exact ⟨x, .field hf hx, hd⟩

variable {D : Defect → Prop}

/-! ## Conversion -/

/-- The text of a value comes to a defect only if the value is a number that cannot be written. -/
theorem writable_of_resists (v : Value) : Writable v.EscapesFromWithin v := by
  rintro n rfl
  cases htext : n.toText with
  | ok _ => exact .ok trivial
  | error s =>
    have hs := toText_eq_error htext
    subst hs
    exact .ofDefect ⟨.number n, .self _, htext, rfl⟩

theorem toStringValue_raises (v : Value) : Raises v.EscapesFromWithin v.toStringValue := by
  have htext : Raises v.EscapesFromWithin (v.primitiveText.map Value.string) :=
    (primitiveText_raises (writable_of_resists v)).map fun _ _ => trivial
  cases v with
  | null | unknown => exact .ok trivial
  | bool | number | string | list | set | map | object => exact htext

theorem numberOfText_raises (s : String) :
    Raises (Value.string s).EscapesFromWithin (numberOfText s) := by
  refine .ite (fun hliteral => ?_) fun _ => .fail
  cases hread : Decimal.ofText s with
  | ok n => exact .ok trivial
  | error problem =>
    exact .ofDefect ⟨.string s, .self _, hliteral, by rw [hread]; rfl, rfl⟩

theorem toNumberValue_raises (v : Value) : Raises v.EscapesFromWithin v.toNumberValue := by
  cases v with
  | null | unknown | number => exact .ok trivial
  | string s => exact (numberOfText_raises s).map fun _ _ => trivial
  | bool | list | set | map | object => exact .fail

theorem toBoolValue_raises (v : Value) : Raises D v.toBoolValue := by
  cases v with
  | null | unknown | bool => exact .ok trivial
  | string s => exact .ite (fun _ => .ok trivial) fun _ => .ite (fun _ => .ok trivial) fun _ => .fail
  | number | list | set | map | object => exact .fail

/-- An error that is told in other words is no defect. -/
theorem within_raises {r : Outcome Value} (h : Raises D r) (part : Value) (whole : Constraint) :
    Raises D (within part whole r) := by
  match r with
  | .ok w => exact h
  | .error (.defect d) => exact h
  | .error (.error e) => exact .ite (fun _ => .fail) fun _ => h

/-- Converting the items of a value comes to a defect only inside one of them. -/
theorem convertItems_raises {v : Value} {items : List Value} (hitems : v.items? = some items)
    {element : Constraint} (whole : Constraint)
    (h : ∀ w ∈ items, Raises w.EscapesFromWithin (w.convert element)) :
    Raises v.EscapesFromWithin
      (items.mapM fun item => within item whole (item.convert element)) := by
  have hparts : ∀ w ∈ items, Raises v.EscapesFromWithin
      (within w whole (w.convert element)) := by
    intro w hw
    have hpart : Raises v.EscapesFromWithin (w.convert element) :=
      (h w hw).mono (fun _ => .ofItem (by rw [hitems]; exact hw)) fun _ h => h
    exact within_raises hpart w whole
  exact (yields_mapM hparts).mono (fun _ hd => hd) fun _ _ => trivial

mutual

/-- **What escapes from conversion.**  Converting a value to a type comes to a defect only at a
number inside it that has to be written and cannot, or at a text inside it that is formed like a
number and cannot be read. -/
theorem convert_raises (v : Value) (t : Constraint) : Raises v.EscapesFromWithin (v.convert t) := by
  match t with
  | .any =>
    rw [convert]
    exact .ok trivial
  | .string =>
    rw [convert]
    exact toStringValue_raises v
  | .number =>
    rw [convert]
    exact toNumberValue_raises v
  | .bool =>
    rw [convert]
    exact toBoolValue_raises v
  | .list element =>
    rw [convert]
    refine .ite (fun _ => .ok trivial) fun _ => ?_
    cases hitems : v.items? with
    | none => exact .fail
    | some items =>
      have hparts := convertItems_raises hitems (.list element) fun w _ => convert_raises w element
      exact hparts.bind fun _ _ _ => .pure trivial
  | .set element =>
    rw [convert]
    refine .ite (fun _ => .ok trivial) fun _ => ?_
    cases hitems : v.items? with
    | none => exact .fail
    | some items =>
      have hparts := convertItems_raises hitems (.set element) fun w _ => convert_raises w element
      exact hparts.bind fun _ _ _ => .pure trivial
  | .map element =>
    rw [convert]
    refine .ite (fun _ => .ok trivial) fun _ => ?_
    cases hfields : v.fields? with
    | none => exact .fail
    | some fields =>
      have hparts : ∀ f ∈ fields, Raises v.EscapesFromWithin (do
          return (f.1, ← within f.2 (.map element) (f.2.convert element))) := by
        intro f hf
        have hpart : Raises v.EscapesFromWithin (f.2.convert element) :=
          (convert_raises f.2 element).mono
            (fun _ => .ofField (by rw [hfields]; exact hf)) fun _ h => h
        exact (within_raises hpart f.2 _).bind fun _ _ _ => .pure trivial
      exact (yields_mapM hparts).bind fun _ _ _ => .pure trivial
  | .object attributes =>
    rw [convert]
    refine .ite (fun _ => .ok trivial) fun _ => ?_
    cases hfields : v.fields? with
    | none => exact .fail
    | some fields =>
      dsimp only
      split
      · exact .fail
      · have hparts := convertAttributes_raises (.object attributes) fields attributes
        refine (hparts.mono (fun d => ?_) fun _ h => h).bind fun _ _ _ => .pure trivial
        rintro ⟨f, hf, hd⟩
        exact .ofField (by rw [hfields]; exact hf) hd

/-- Converting the fields that attributes ask for comes to a defect only inside one of them. -/
theorem convertAttributes_raises (whole : Constraint) (fields : List (String × Value))
    (attributes : List (String × Constraint)) :
    Raises (fun d => ∃ f ∈ fields, f.2.EscapesFromWithin d)
      (convertAttributes whole fields attributes) := by
  match attributes with
  | [] =>
    rw [convertAttributes]
    exact .ok trivial
  | (key, t) :: rest =>
    rw [convertAttributes]
    have hitem : Raises (fun d => ∃ f ∈ fields, f.2.EscapesFromWithin d)
        (((Table.get? fields key).getD .null).convert t) := by
      refine (convert_raises _ t).mono (fun d hd => ?_) fun _ h => h
      cases hfound : Table.get? fields key with
      | none =>
        -- Nothing escapes from null, which stands for what is missing.
        rw [hfound] at hd
        obtain ⟨x, hx, hresists⟩ := hd
        cases hx with
        | self => cases hresists
        | item hw => exact absurd hw List.not_mem_nil
        | field hf => exact absurd hf List.not_mem_nil
      | some w =>
        rw [hfound] at hd
        exact ⟨(key, w), Table.mem_of_get?_eq_some hfound, hd⟩
    refine (within_raises hitem _ whole).bind fun _ _ _ => ?_
    exact (convertAttributes_raises whole fields rest).bind fun _ _ _ => .pure trivial

end

end Value

/-! ## Expansion -/

namespace Expansion

/-- The defects that an expansion may come to: a number inside the value of the multiplicity cannot
be written, or the limit on instances is passed by a count with too many digits. -/
def EscapesFrom (limit : Int) (source : Value) (d : Defect) : Prop :=
  source.EscapesFromWithin d ∨ (limit ≠ 0 ∧ d = .tooManyDigits none)

theorem checkSize_raises (limit : Int) (address : String) (count : Nat) (span : Option Span) :
    Raises (fun d => limit ≠ 0 ∧ d = .tooManyDigits none) (checkSize limit address count span) := by
  refine .ite (fun habove => ?_) fun _ => .ok trivial
  have hlimit : limit ≠ 0 := by
    intro hzero
    simp [hzero] at habove
  have hshown : Raises (fun d => limit ≠ 0 ∧ d = .tooManyDigits none) (writeInt count) := by
    -- The bound is a number of thousands of digits.
    unfold writeInt
    generalize Nat.pow 10 digitLimit = bound
    exact .ite (fun _ => .ofDefect ⟨hlimit, rfl⟩) fun _ => .ok trivial
  exact hshown.bind fun _ _ _ => .fail

theorem elementNames_raises (address : String) (span : Option Span) (elements : List Value)
    (earlier : List (String × Value)) :
    Raises (fun d => ∃ v ∈ elements, v.EscapesFromWithin d)
      (elementNames address span earlier elements) := by
  induction elements generalizing earlier with
  | nil => exact .ok trivial
  | cons element rest ih =>
    have hname : Raises (fun d => ∃ v ∈ element :: rest, v.EscapesFromWithin d)
        element.primitiveText :=
      (primitiveText_raises element.writable_of_resists).mono
        (fun _ hd => ⟨element, List.mem_cons_self, hd⟩) fun _ h => h
    have hrest : ∀ earlier, Raises (fun d => ∃ v ∈ element :: rest, v.EscapesFromWithin d)
        (elementNames address span earlier rest) := fun earlier =>
      (ih earlier).mono (fun _ ⟨v, hv, hd⟩ => ⟨v, List.mem_cons_of_mem element hv, hd⟩)
        fun _ h => h
    unfold elementNames
    refine .ite (fun _ => .fail_bind) fun _ => ?_
    refine hname.bind fun name _ _ => ?_
    exact .ite (fun _ => .fail_bind) fun _ => hrest _

/-- **What escapes from expansion.**  Expanding a template by a value comes to a defect only at a
number inside the value that cannot be written, or at a count above the limit on instances that has
too many digits to be shown. -/
theorem ofValue_raises (limit : Int) (address : String) (source : Value) (span : Option Span) :
    Raises (EscapesFrom limit source) (ofValue limit address source span) := by
  have hsize : ∀ count, Raises (EscapesFrom limit source) (checkSize limit address count span) :=
    fun count => (checkSize_raises limit address count span).mono (fun _ => .inr) fun _ h => h
  cases source with
  | null | bool | string => exact .fail
  | list => exact .fail
  | unknown => exact .ok trivial
  | number n =>
    have hcount : Raises (EscapesFrom limit (.number n)) (do
        let count := n.toInt.toNat
        checkSize limit address count span
        return counted address count) := (hsize _).bind fun _ _ _ => .pure trivial
    have hshown : Raises (EscapesFrom limit (.number n)) (ofArithmetic n.toText) :=
      ((Value.number n).writable_of_resists n rfl).mono (fun _ => .inl) fun _ h => h
    exact .ite (fun _ => hshown.bind fun _ _ _ => .fail_bind) fun _ => hcount
  | set items =>
    have hnames : Raises (EscapesFrom limit (.set items)) (elementNames address span [] items) :=
      (elementNames_raises address span items []).mono
        (fun _ ⟨_, hv, hd⟩ => .inl (.ofItem hv hd)) fun _ h => h
    refine .ite (fun _ => .pure trivial) fun _ => ?_
    exact hnames.bind fun entries _ _ => (hsize _).bind fun _ _ _ => .pure trivial
  | map fields | object fields => exact (hsize _).bind fun _ _ _ => .pure trivial

end Expansion

end Groundplan
