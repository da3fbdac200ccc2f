import Groundplan.Expansion
import Groundplan.Proofs.Equality.Constructed
import Groundplan.Proofs.Equality.Operation
import Groundplan.Proofs.Refinement.Expansion

/-!
# Instances Are Told Apart by Content

The instances of a template are named by the keys of a map or object, or by the texts of a set's
elements.  Texts do not tell all elements apart, so a set whose elements share a text is refused;
otherwise names and elements belong to each other one to one.  What the scope of an instance binds
is read off its own entry, and values that are equal make the same instances.

## Main Definitions

- `Value.HasText`: the text of a string, number or bool
- `Expansion.NamesEach`: one instance for each entry of a table
- `Expansion.RefusedForName`: the refusal of a name that comes twice
- `Expansion.EqualTo`: the same instances with equal bindings

## Main Statements

- `Expansion.named_namesEach`: names are in order, each once, and each binds its own entry
- `Expansion.elementNames_of_nodup`, `Expansion.elementNames_of_duplicate`: the names of elements
- `Expansion.refusedForName_iff`: a set is refused for a name if a text comes twice
- `Expansion.ofValue_agrees`: values that are alike make equal instances
- `Expansion.identity_of_content`
-/

namespace Groundplan

namespace Value

/-- A string, number or bool is written as a text. -/
def HasText (v : Value) (text : String) : Prop :=
  v.toStringValue = .ok (.string text)

theorem hasText_iff {v : Value} {text : String} :
    v.HasText text ↔ v.kind.isPrimitive = true ∧ v.primitiveText = .ok text := by
  unfold HasText
  cases v with
  | null | unknown => simp [toStringValue, kind, Kind.isPrimitive]
  | list | set | map | object => simp [toStringValue, primitiveText, refuse, fail, kind,
      Kind.isPrimitive, Except.map]
  | bool b => simp [toStringValue, primitiveText, kind, Kind.isPrimitive, Except.map]
  | string s => simp [toStringValue, primitiveText, kind, Kind.isPrimitive, Except.map]
  | number n =>
    simp only [toStringValue, primitiveText, kind, Kind.isPrimitive, true_and]
    cases ofArithmetic n.toText with
    | error fault => simp [Except.map]
    | ok shown => simp [Except.map]

namespace HasText

variable {v : Value} {text text' : String} {items : List Value} {forms : List String}

theorem containsUnknown (h : v.HasText text) : v.containsUnknown = false := by
  have hkind := (hasText_iff.mp h).1
  cases v <;> simp_all [kind, Kind.isPrimitive, Value.containsUnknown]

theorem unique (h : v.HasText text) (h' : v.HasText text') : text = text' := by
  unfold HasText at h h'
  rw [h] at h'
  cases h'
  rfl

/-- Values that are written as texts have their texts in their order. -/
theorem exists_forms (h : ∀ v ∈ items, ∃ text, v.HasText text) :
    ∃ forms, List.Forall₂ HasText items forms := by
  induction items with
  | nil => exact ⟨[], .nil⟩
  | cons v rest ih =>
    obtain ⟨⟨text, hv⟩, hrest⟩ := List.forall_mem_cons.mp h
    obtain ⟨forms, hforms⟩ := ih hrest
    exact ⟨text :: forms, .cons hv hforms⟩

theorem anyContainsUnknown (h : List.Forall₂ HasText items forms) :
    Value.anyContainsUnknown items = false := by
  induction h with
  | nil => rfl
  | cons hv _ ih => rw [Value.anyContainsUnknown, hv.containsUnknown, ih, Bool.or_self]

theorem mem_forms_iff (h : List.Forall₂ HasText items forms) :
    text ∈ forms ↔ ∃ v ∈ items, v.HasText text := by
  induction h with
  | nil => simp
  | @cons v form rest forms hv _ ih =>
    simp only [List.mem_cons, exists_eq_or_imp, ih]
    refine or_congr ⟨?_, fun h => h.unique hv⟩ Iff.rfl
    rintro rfl
    exact hv

/-- Texts are different if no two places hold values with the same text. -/
theorem nodup_forms_iff (h : List.Forall₂ HasText items forms) :
    forms.Nodup ↔ items.Pairwise fun v w => ¬ ∃ text, v.HasText text ∧ w.HasText text := by
  induction h with
  | nil => simp
  | @cons v form rest forms hv hrest ih =>
    rw [List.nodup_cons, List.pairwise_cons, ih, mem_forms_iff hrest]
    refine and_congr ⟨?_, ?_⟩ Iff.rfl
    · rintro hfresh w hw ⟨text, hvtext, hwtext⟩
      exact hfresh ⟨w, hw, hv.unique hvtext ▸ hwtext⟩
    · rintro hdifferent ⟨w, hw, hwtext⟩
      exact hdifferent w hw ⟨form, hv, hwtext⟩

/-- The elements of a set ascend, so two of its places share a text if two of its elements do that
are not equal. -/
theorem not_nodup_forms_iff (hvalid : (Value.set items).IsValid)
    (h : List.Forall₂ HasText items forms) :
    ¬ forms.Nodup ↔ ∃ v ∈ items, ∃ w ∈ items,
      v.equals w = false ∧ ∃ text, v.HasText text ∧ w.HasText text := by
  simp only [IsValid, itemsValid_iff] at hvalid
  obtain ⟨hascending, hitems⟩ := hvalid
  rw [nodup_forms_iff h]
  constructor
  · contrapose!
    intro hdifferent
    -- What comes first is below what comes later, so the two are not equal.
    refine hascending.imp_of_mem fun {v w} hv hw hless => ?_
    apply hdifferent v hv w hw
    have hcompare := (hitems v hv).compare_eq_iff (hitems w hw)
    simpa [hless] using hcompare
  · rintro ⟨v, hv, w, hw, hunequal, hshared⟩ hdifferent
    have hne : v ≠ w := by
      rintro rfl
      simp [(hitems v hv).alike.equals] at hunequal
    have : Std.Symm fun v w : Value => ¬ ∃ text, v.HasText text ∧ w.HasText text :=
      ⟨fun v w h ⟨text, hw, hv⟩ => h ⟨text, hv, hw⟩⟩
    exact hdifferent.forall hv hw hne hshared

end HasText

end Value

namespace Expansion

open Value

variable {address : String} {span : Option Span} {limit : Int}

/-! ## Named instances -/

/-- There is one instance for each entry: the names are the keys in ascending order, and the scope
of an instance binds the key and the value of its entry. -/
structure NamesEach (e : Expansion) (entries : List (String × Value)) : Prop where
  mode : e.mode = .forEach
  names : ∃ names : List String, e.keys = names.map (fun name => some (.name name))
    ∧ names.Pairwise (· < ·) ∧ names.Perm (Table.keys entries)
  bound : Table.keys e.bindings = e.keys
  bindings : ∀ entry ∈ entries, Table.get? e.bindings (some (.name entry.1))
    = some [(SymbolPath.eachKey, .string entry.1), (SymbolPath.eachValue, entry.2)]

/-- What different keys name, they name in ascending order, each binding its own entry. -/
theorem named_namesEach (address : String) {entries : List (String × Value)}
    (hdistinct : (Table.keys entries).Nodup) : (named address entries).NamesEach entries := by
  have hperm : (Sorting.sortKeys entries).Perm entries := Sorting.sortBy_perm _ entries
  have hsorted : (Table.keys (Sorting.sortKeys entries)).Nodup :=
    (hperm.map Prod.fst).nodup_iff.mpr hdistinct
  refine ⟨rfl, ⟨Table.keys (Sorting.sortKeys entries), ?_, ?_, hperm.map Prod.fst⟩, ?_, ?_⟩
  · simp [named, Table.keys, Function.comp_def]
  · -- Ascending names that are different are strictly ascending.
    have hle : (Table.keys (Sorting.sortKeys entries)).Pairwise (· ≤ ·) :=
      List.pairwise_map.mpr (Sorting.sortKeys_sorted entries)
    exact (hle.and hsorted).imp fun h => lt_of_le_of_ne h.1 h.2
  · simp [named, Table.keys, Function.comp_def]
  · intro entry hentry
    have hbindings : (Table.keys (named address entries).bindings).Nodup := by
      have hkeys : Table.keys (named address entries).bindings
          = (Table.keys (Sorting.sortKeys entries)).map fun name => some (.name name) := by
        simp [named, Table.keys, Function.comp_def]
      rw [hkeys]
      exact hsorted.map fun a b hab => by simpa using hab
    rw [← Table.mem_iff_get?_eq_some hbindings]
    exact List.mem_map.mpr ⟨entry, hperm.mem_iff.mpr hentry, rfl⟩

/-! ## Names of elements -/

variable {earlier entries : List (String × Value)} {items : List Value} {forms : List String}

theorem elementNames_cons {v : Value} {text : String} (h : v.HasText text) (rest : List Value) :
    elementNames address span earlier (v :: rest)
      = if Table.has earlier text then fail (.duplicateKey text) span
        else elementNames address span (earlier ++ [(text, v)]) rest := by
  obtain ⟨hkind, htext⟩ := hasText_iff.mp h
  simp only [elementNames, hkind, htext, Bool.not_true, Bool.false_eq_true, if_false]
  show (if Table.has earlier text then _ else _) = _
  split
  · rfl
  · rfl

/-- Elements with different texts are named by them. -/
theorem elementNames_of_nodup (h : List.Forall₂ HasText items forms)
    (hdistinct : (Table.keys earlier ++ forms).Nodup) :
    elementNames address span earlier items = .ok (earlier ++ forms.zip items) := by
  induction h generalizing earlier with
  | nil => simp [elementNames]
  | @cons v form rest forms hv _ ih =>
    have hfresh : ¬ Table.has earlier form = true := by
      rw [Table.has_iff_mem_keys]
      intro hmem
      exact (List.nodup_append.mp hdistinct).2.2 form hmem form List.mem_cons_self rfl
    have hrest : (Table.keys (earlier ++ [(form, v)]) ++ forms).Nodup := by
      simpa [Table.keys] using hdistinct
    rw [elementNames_cons hv, if_neg hfresh, ih hrest, List.zip_cons_cons, List.append_assoc,
      List.singleton_append]

/-- A text that comes again is refused. -/
theorem elementNames_of_duplicate (h : List.Forall₂ HasText items forms)
    (hearlier : (Table.keys earlier).Nodup) (hduplicate : ¬ (Table.keys earlier ++ forms).Nodup) :
    ∃ name, elementNames address span earlier items = fail (.duplicateKey name) span := by
  induction h generalizing earlier with
  | nil => exact absurd (by simpa using hearlier) hduplicate
  | @cons v form rest forms hv _ ih =>
    rw [elementNames_cons hv]
    split
    · exact ⟨form, rfl⟩
    · rename_i hfresh
      rw [Table.has_iff_mem_keys] at hfresh
      apply ih
      · have hkeys : Table.keys (earlier ++ [(form, v)]) = Table.keys earlier ++ [form] := by
          simp [Table.keys]
        rw [hkeys, List.nodup_append]
        simp only [List.nodup_singleton, List.mem_singleton, true_and, hearlier]
        rintro name hname _ rfl rfl
        exact hfresh hname
      · simpa [Table.keys] using hduplicate

/-! ## Instances of a source -/

/-- So many instances may be made; a limit of zero is none. -/
def Allows (limit : Int) (n : Nat) : Prop :=
  limit = 0 ∨ n ≤ limit

theorem checkSize_of_allows {n : Nat} (h : Allows limit n) :
    checkSize limit address n span = .ok () := by
  unfold checkSize
  apply if_neg
  rcases h with hnone | hle
  · simp [hnone]
  · simp [hle]

/-- The number of instances is never what is told of as a repeated name. -/
theorem checkSize_category {n : Nat} {error : EvalError}
    (h : checkSize limit address n span = .error (.error error)) :
    error.problem.category ≠ .duplicateKey := by
  unfold checkSize at h
  split at h
  · rcases bind_eq_error_iff.mp h with hwrite | ⟨shown, _, hrefuse⟩
    · unfold writeInt at hwrite
      split at hwrite <;> cases hwrite
    · cases hrefuse
      simp [Problem.category]
  · cases h

theorem ofValue_fields {v : Value} {fields : List (String × Value)}
    (hv : v = .map fields ∨ v = .object fields) :
    ofValue limit address v span = (do
      checkSize limit address fields.length span
      return named address fields) := by
  rcases hv with rfl | rfl <;> rw [ofValue]

/-- The instances of a map or object are its entries. -/
theorem NamesEach.of_fields {v : Value} {fields : List (String × Value)} {e : Expansion}
    (hv : v = .map fields ∨ v = .object fields) (hvalid : v.IsValid)
    (h : ofValue limit address v span = .ok e) : e.NamesEach fields := by
  have hdistinct : (Table.keys fields).Nodup := by
    rcases hv with rfl | rfl
    all_goals
      simp only [IsValid] at hvalid
      exact hvalid.1
  rw [ofValue_fields hv] at h
  obtain ⟨_, _, hnamed⟩ := bind_eq_ok_iff.mp h
  cases hnamed
  exact named_namesEach address hdistinct

theorem ofValue_set (hforms : List.Forall₂ HasText items forms) :
    ofValue limit address (.set items) span = (do
      let entries ← elementNames address span [] items
      checkSize limit address entries.length span
      return named address entries) := by
  rw [ofValue]
  simp only [HasText.anyContainsUnknown hforms]
  rfl

/-- Elements with different texts make an instance each. -/
theorem ofValue_set_of_nodup (hforms : List.Forall₂ HasText items forms)
    (hdistinct : forms.Nodup) :
    ofValue limit address (.set items) span = (do
      checkSize limit address items.length span
      return named address (forms.zip items)) := by
  have hnames : elementNames address span [] items = .ok (forms.zip items) :=
    elementNames_of_nodup hforms hdistinct
  have hlength : (forms.zip items).length = items.length := by simp [hforms.length_eq]
  rw [ofValue_set hforms, hnames, ← hlength]
  rfl

theorem ofValue_set_of_duplicate (hforms : List.Forall₂ HasText items forms)
    (hduplicate : ¬ forms.Nodup) :
    ∃ name, ofValue limit address (.set items) span = fail (.duplicateKey name) span := by
  obtain ⟨name, hfails⟩ : ∃ name, elementNames address span [] items = _ :=
    elementNames_of_duplicate hforms List.nodup_nil hduplicate
  refine ⟨name, ?_⟩
  rw [ofValue_set hforms, hfails]
  rfl

/-- The instances of a set are its elements under their texts. -/
theorem NamesEach.of_items {e : Expansion} (hforms : List.Forall₂ HasText items forms)
    (h : ofValue limit address (.set items) span = .ok e) : e.NamesEach (forms.zip items) := by
  by_cases hdistinct : forms.Nodup
  · rw [ofValue_set_of_nodup hforms hdistinct] at h
    obtain ⟨_, _, hnamed⟩ := bind_eq_ok_iff.mp h
    cases hnamed
    apply named_namesEach
    have hkeys : Table.keys (forms.zip items) = forms :=
      List.map_fst_zip (hforms.length_eq ▸ le_rfl)
    rwa [hkeys]
  · obtain ⟨name, hfails⟩ := ofValue_set_of_duplicate hforms hdistinct
    rw [hfails] at h
    cases h

/-- A source is refused because two of its elements would get the same name. -/
def RefusedForName (expanded : Outcome Expansion) : Prop :=
  ∃ error, expanded = .error (.error error) ∧ error.problem.category = .duplicateKey

/-- A set is refused for a repeated name if a text comes twice. -/
theorem refusedForName_iff (hforms : List.Forall₂ HasText items forms) :
    RefusedForName (ofValue limit address (.set items) span) ↔ ¬ forms.Nodup := by
  constructor
  · rintro ⟨error, h, hcategory⟩ hdistinct
    rw [ofValue_set_of_nodup hforms hdistinct] at h
    rcases bind_eq_error_iff.mp h with hsize | ⟨_, _, hnamed⟩
    · exact checkSize_category hsize hcategory
    · cases hnamed
  · intro hduplicate
    obtain ⟨name, hfails⟩ := ofValue_set_of_duplicate hforms hduplicate
    rw [hfails]
    exact ⟨_, rfl, rfl⟩

/-- A set that is not too large is expanded, or a name comes twice. -/
theorem exists_or_refusedForName (hforms : List.Forall₂ HasText items forms)
    (hallows : Allows limit items.length) :
    (∃ e, ofValue limit address (.set items) span = .ok e)
      ∨ RefusedForName (ofValue limit address (.set items) span) := by
  by_cases hdistinct : forms.Nodup
  · left
    refine ⟨named address (forms.zip items), ?_⟩
    rw [ofValue_set_of_nodup hforms hdistinct, checkSize_of_allows hallows]
    rfl
  · right
    exact (refusedForName_iff hforms).mpr hdistinct

/-! ## Equal sources -/

/-- The same instances, with bindings that are equal name by name. -/
structure EqualTo (e e' : Expansion) : Prop where
  address : e.address = e'.address
  mode : e.mode = e'.mode
  keys : e.keys = e'.keys
  bindings : Table.Related (Table.Related fun v w => v.equals w = true) e.bindings e'.bindings

theorem counted_equalTo (address : String) (n : Nat) :
    (counted address n).EqualTo (counted address n) := by
  refine ⟨rfl, rfl, rfl, ?_⟩
  unfold counted
  generalize List.range n = places
  induction places with
  | nil => exact .nil
  | cons i rest ih => exact .cons _ (.cons _ (Alike.number rfl).equals .nil) ih

theorem named_equalTo (address : String) {fs gs : List (String × Value)}
    (h : Table.Related Alike (Sorting.sortKeys fs) (Sorting.sortKeys gs)) :
    (named address fs).EqualTo (named address gs) := by
  have hequal : Table.Related (fun v w => v.equals w = true) (Sorting.sortKeys fs)
      (Sorting.sortKeys gs) := h.mono fun _ _ => Alike.equals
  obtain ⟨hkeys, hbindings⟩ := named_related address (fun s => (Alike.string s).equals) hequal
  exact ⟨rfl, rfl, hkeys.symm, hbindings⟩

/-- Elements that are alike get the same names. -/
theorem elementNames_agrees {vs ws : List Value} (h : ItemsAlike vs ws)
    {es fs : List (String × Value)} (hearlier : Table.Related Alike es fs) :
    Agrees (Table.Related Alike) (elementNames address span es vs)
      (elementNames address span fs ws) := by
  induction vs generalizing ws es fs with
  | nil =>
    cases h
    exact .ok hearlier
  | cons v vs ih =>
    cases h with
    | @cons _ w _ ws hhead htail =>
      simp only [elementNames]
      rw [hhead.kind_eq, hhead.label_eq]
      refine .ite Iff.rfl (fun _ => .fail_bind rfl) fun _ => ?_
      refine (primitiveText_agrees hhead).bind fun name _ _ _ hname => ?_
      subst hname
      rw [hearlier.has_eq name]
      refine .ite Iff.rfl (fun _ => .fail_bind rfl) fun _ => ?_
      exact ih htail (hearlier.append (.cons name hhead .nil))

/-- Values that are alike make equal instances, or fail alike. -/
theorem ofValue_agrees (limit : Int) (address : String) (span : Option Span) {v w : Value}
    (h : Alike v w) :
    Agrees EqualTo (ofValue limit address v span) (ofValue limit address w span) := by
  cases h with
  | unknown => exact .ok ⟨rfl, rfl, rfl, .nil⟩
  | null | bool | string => exact .fail (by rfl)
  | list => exact .fail (by rfl)
  | @number a b hab =>
    simp only [ofValue]
    rw [Decimal.isWhole_congr hab, Decimal.sign_congr hab, Decimal.toText_congr hab,
      Decimal.toInt_congr hab]
    refine .ite Iff.rfl (fun _ => ?_) fun _ => ?_
    · exact (Concur.refl (ofArithmetic b.toText)).bind fun _ _ _ _ _ => .fail_bind rfl
    refine (Concur.refl (checkSize limit address _ span)).bind fun _ _ _ _ _ => ?_
    exact .ok (counted_equalTo address _)
  | set hitems =>
    simp only [ofValue]
    rw [hitems.containsUnknown_eq]
    refine .ite Iff.rfl (fun _ => .ok ⟨rfl, rfl, rfl, .nil⟩) fun _ => ?_
    refine (elementNames_agrees hitems .nil).bind fun es fs _ _ hentries => ?_
    have hlength : es.length = fs.length := by
      simpa [Table.keys] using congrArg List.length hentries.keys_eq.symm
    rw [hlength]
    refine (Concur.refl (checkSize limit address _ span)).bind fun _ _ _ _ _ => ?_
    exact .ok (named_equalTo address hentries.sortKeys)
  | map hdistinct hfields hperm | object hdistinct hfields hperm =>
    have hsimilar := hfields.similar hdistinct hperm
    simp only [ofValue]
    rw [hsimilar.length_eq]
    refine (Concur.refl (checkSize limit address _ span)).bind fun _ _ _ _ _ => ?_
    exact .ok (named_equalTo address hsimilar.sortKeys)

/-! ## Identity -/

/-- Instances are told apart by content alone.  The instances of a map or object are named by its
keys, and those of a set by the texts of its elements, and each binds its own entry.  Only too many
instances are refused, or a set for a repeated name, if two of its elements have the same text.
Sources that are equal make the same instances with equal bindings, or fail with errors of the same
class. -/
theorem identity_of_content (limit : Int) (r : Resource) {v w : Value} (hv : v.Constructed)
    (hw : w.Constructed) :
    (∀ fields, v = .map fields ∨ v = .object fields →
      (Allows limit fields.length → ∃ e, Expansion.of limit r (some v) = .ok e)
      ∧ ∀ e, Expansion.of limit r (some v) = .ok e → e.NamesEach fields)
    ∧ (∀ items, v = .set items → (∀ x ∈ items, ∃ text, x.HasText text) →
      (Allows limit items.length → (∃ e, Expansion.of limit r (some v) = .ok e)
        ∨ RefusedForName (Expansion.of limit r (some v)))
      ∧ (∃ forms, List.Forall₂ HasText items forms ∧
        ∀ e, Expansion.of limit r (some v) = .ok e → e.NamesEach (forms.zip items))
      ∧ (RefusedForName (Expansion.of limit r (some v)) ↔
        ∃ x ∈ items, ∃ y ∈ items, x.equals y = false ∧ ∃ text, x.HasText text ∧ y.HasText text))
    ∧ (v.equals w = true →
      Agrees EqualTo (Expansion.of limit r (some v)) (Expansion.of limit r (some w))) := by
  refine ⟨?_, ?_, ?_⟩
  · intro fields hfields
    refine ⟨fun hallows => ?_, fun e he => .of_fields hfields hv.isValid he⟩
    refine ⟨named r.address fields, (ofValue_fields hfields).trans ?_⟩
    rw [checkSize_of_allows hallows]
    rfl
  · rintro items rfl htexts
    obtain ⟨forms, hforms⟩ := HasText.exists_forms htexts
    refine ⟨exists_or_refusedForName hforms, ⟨forms, hforms, fun e he => .of_items hforms he⟩, ?_⟩
    exact (refusedForName_iff hforms).trans (HasText.not_nodup_forms_iff hv.isValid hforms)
  · intro hequal
    exact ofValue_agrees limit r.address _ (hv.isValid.alike_of_equals hw.isValid hequal)

/-- A map, a set written in two ways, and a set in which a number and a string share a text. -/
theorem identity_of_content_texts :
    let r : Resource := ⟨"disk", "data", [], none, [], .none, [], none⟩
    let one : Value := .number ⟨false, 1, 0⟩
    let tenTenths : Value := .number ⟨false, 10, -1⟩
    let sizes : Value := .map [("b", one), ("a", .null)]
    let v : Value := .set [.bool true, one, .string "b"]
    let w : Value := setOf [.string "b", tenTenths, .bool true, one]
    let shared : Value := .set [one, .string "1"]
    (∃ e, Expansion.of 3 r (some sizes) = .ok e ∧ e.NamesEach [("b", one), ("a", .null)])
    ∧ (∃ e forms, Expansion.of 3 r (some v) = .ok e
      ∧ List.Forall₂ HasText [.bool true, one, .string "b"] forms
      ∧ e.NamesEach (forms.zip [.bool true, one, .string "b"]))
    ∧ (v.equals w = true ∧ Agrees EqualTo (Expansion.of 3 r (some v)) (Expansion.of 3 r (some w)))
    ∧ RefusedForName (Expansion.of 3 r (some shared)) := by
  intro r one tenTenths sizes v w shared
  have hone : one.HasText "1" := rfl
  have hsizes : sizes.Constructed := by
    refine IsValid.constructed ?_
    simp [sizes, one, IsValid, FieldsValid, Table.keys]
  have hv : v.Constructed := by
    refine IsValid.constructed ?_
    simp only [v, one, IsValid, ItemsValid, and_true]
    decide +kernel
  have hshared : shared.Constructed := by
    refine IsValid.constructed ?_
    simp only [shared, one, IsValid, ItemsValid, and_true]
    decide +kernel
  have hw : w.Constructed := .set (by simp [one, tenTenths])
  have htexts : ∀ x ∈ [.bool true, one, .string "b"], ∃ text, x.HasText text := by
    simp only [List.forall_mem_cons]
    exact ⟨⟨_, rfl⟩, ⟨_, hone⟩, ⟨_, rfl⟩, by simp⟩
  refine ⟨?_, ?_, ⟨by decide +kernel, ?_⟩, ?_⟩
  · obtain ⟨hreturns, hnames⟩ := (identity_of_content 3 r hsizes hsizes).1 _ (.inl rfl)
    obtain ⟨e, he⟩ := hreturns (.inr (by decide))
    exact ⟨e, he, hnames e he⟩
  · obtain ⟨_, ⟨forms, hforms, hnames⟩, _⟩ :=
      (identity_of_content 3 r hv hv).2.1 _ rfl htexts
    exact ⟨_, forms, rfl, hforms, hnames _ rfl⟩
  · exact (identity_of_content 3 r hv hw).2.2 (by decide +kernel)
  · apply ((identity_of_content 3 r hshared hshared).2.1 _ rfl ?_).2.2.mpr
    · exact ⟨one, by simp, .string "1", by simp, by decide +kernel, "1", hone, rfl⟩
    · simp only [List.forall_mem_cons]
      exact ⟨⟨_, hone⟩, ⟨_, rfl⟩, by simp⟩

end Expansion

end Groundplan
