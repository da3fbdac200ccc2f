import Groundplan.Library.Standard
import Groundplan.Proofs.Conversion.NumberText
import Groundplan.Proofs.Equality.Constructed
import Groundplan.Proofs.Equality.Text
import Groundplan.Proofs.Json.RoundTrip

/-!
# The JSON Text of a Value Is Canonical

JSON knows arrays and objects only, so lists and sets are written alike, and so are maps and
objects.  Nothing else is lost: the text is that of a document, which is read back, and the document
has the data of the value.  Since members are sorted and numbers are written without an exponent and
without needless zeros, the same data have the same text.

## Main Definitions

- `Value.asData`: the value with sets read as lists and objects as maps
- `Json.value`: the data of a document
- `Value.IsExact`: values whose numbers the context of the language can represent

## Main Statements

- `Value.exists_document`: the text of a value is that of a document with its data
- `Value.toJson_eq_iff`: the texts of two values are the same if their data are equal
- `Value.jsonencode_canonical`: what the function on values returns
-/

namespace Groundplan

/-! ## Data -/

namespace Value

mutual

/-- The value with every set read as the list of its elements and every object as a map. -/
def asData : Value → Value
  | .list items => .list (itemsAsData items)
  | .set items => .list (itemsAsData items)
  | .map fields => .map (fieldsAsData fields)
  | .object fields => .map (fieldsAsData fields)
  | .null => .null
  | .bool b => .bool b
  | .number n => .number n
  | .string s => .string s
  | .unknown => .unknown

/-- Some values as data. -/
def itemsAsData : List Value → List Value
  | [] => []
  | v :: vs => asData v :: itemsAsData vs

/-- Some fields with their values as data. -/
def fieldsAsData : List (String × Value) → List (String × Value)
  | [] => []
  | (key, v) :: fields => (key, asData v) :: fieldsAsData fields

end

mutual

/-- The context of the language can represent the numbers in the value, at every depth. -/
def IsExact : Value → Prop
  | .number n => Decimal.Context.standard.Represents n
  | .list items => ItemsExact items
  | .set items => ItemsExact items
  | .map fields => FieldsExact fields
  | .object fields => FieldsExact fields
  | .null | .bool _ | .string _ | .unknown => True

/-- The numbers in some values can be represented. -/
def ItemsExact : List Value → Prop
  | [] => True
  | v :: vs => IsExact v ∧ ItemsExact vs

/-- The numbers in the values of some fields can be represented. -/
def FieldsExact : List (String × Value) → Prop
  | [] => True
  | (_, v) :: fields => IsExact v ∧ FieldsExact fields

end

end Value

namespace Json

mutual

/-- The data of a document; a number that no text of a number writes has none. -/
def value : Json → Value
  | .null => .null
  | .bool b => .bool b
  | .number written =>
    match Value.toNumberValue (.string written) with
    | .ok v => v
    | .error _ => .unknown
  | .string s => .string s
  | .array items => .list (itemValues items)
  | .object members => .map (memberValues members)

/-- The data of some documents. -/
def itemValues : List Json → List Value
  | [] => []
  | j :: js => value j :: itemValues js

/-- The data of some members under their keys. -/
def memberValues : List (String × Json) → List (String × Value)
  | [] => []
  | (key, j) :: members => (key, value j) :: memberValues members

end

end Json

namespace Value

variable {v w : Value} {vs : List Value} {fs : List (String × Value)}

/-! ## Invariants of data -/

theorem keys_fieldsAsData (fs : List (String × Value)) :
    Table.keys (fieldsAsData fs) = Table.keys fs := by
  induction fs with
  | nil => rfl
  | cons f fs ih => exact congrArg (f.1 :: ·) ih

mutual

theorem IsValid.asData {v : Value} (h : v.IsValid) : v.asData.IsValid := by
  match v with
  | .null | .bool _ | .number _ | .string _ | .unknown => exact h
  | .list vs =>
    simp only [Value.asData, IsValid] at h ⊢
    exact h.asData
  | .set vs =>
    simp only [Value.asData, IsValid] at h ⊢
    exact h.2.asData
  | .map fs | .object fs =>
    simp only [Value.asData, IsValid, keys_fieldsAsData] at h ⊢
    exact ⟨h.1, h.2.asData⟩

theorem ItemsValid.asData {vs : List Value} (h : ItemsValid vs) :
    ItemsValid (itemsAsData vs) := by
  match vs with
  | [] => exact h
  | v :: vs =>
    simp only [itemsAsData, ItemsValid] at h ⊢
    exact ⟨h.1.asData, h.2.asData⟩

theorem FieldsValid.asData {fs : List (String × Value)} (h : FieldsValid fs) :
    FieldsValid (fieldsAsData fs) := by
  match fs with
  | [] => exact h
  | (_, v) :: fs =>
    simp only [fieldsAsData, FieldsValid] at h ⊢
    exact ⟨h.1.asData, h.2.asData⟩

end

mutual

/-- Reading sets as lists and objects as maps does not change the text. -/
theorem toJson_asData (v : Value) : v.asData.toJson = v.toJson := by
  match v with
  | .null | .bool _ | .number _ | .string _ | .unknown => rfl
  | .list vs | .set vs => simp only [asData, toJson, jsonItems_asData vs]
  | .map fs | .object fs => simp only [asData, toJson, jsonFields_asData fs]

theorem jsonItems_asData (vs : List Value) : jsonItems (itemsAsData vs) = jsonItems vs := by
  match vs with
  | [] => rfl
  | v :: vs => simp only [itemsAsData, jsonItems, toJson_asData v, jsonItems_asData vs]

theorem jsonFields_asData (fs : List (String × Value)) :
    jsonFields (fieldsAsData fs) = jsonFields fs := by
  match fs with
  | [] => rfl
  | (_, v) :: fs => simp only [fieldsAsData, jsonFields, toJson_asData v, jsonFields_asData fs]

end

end Value

/-! ## Members in another order -/

namespace Json

variable {members members' : List (String × Json)}

theorem membersWellWritten_iff :
    MembersWellWritten members ↔ ∀ m ∈ members, m.2.IsWellWritten := by
  induction members with
  | nil => simp [MembersWellWritten]
  | cons m members ih => rw [MembersWellWritten, ih, List.forall_mem_cons]

theorem memberValues_eq_map : memberValues members = members.map fun m => (m.1, m.2.value) := by
  induction members with
  | nil => rfl
  | cons m members ih => exact congrArg ((m.1, m.2.value) :: ·) ih

theorem memberValues_perm (h : members.Perm members') :
    (memberValues members).Perm (memberValues members') := by
  rw [memberValues_eq_map, memberValues_eq_map]
  exact h.map _

/-- The members of a document are written as pairs of a key and a text are. -/
theorem memberTexts_eq {texts : List (String × String)}
    (h : Table.Related (fun j t => text j = t) members texts) :
    memberTexts members = texts.map fun (key, t) => Text.quoteJson key ++ ":" ++ t := by
  induction h with
  | nil => rfl
  | cons key htext _ ih => rw [memberTexts, htext, ih, List.map_cons]

end Json

namespace Value

variable {v w : Value}

/-! ## The text is that of a document -/

/-- The text of a number is a numeral. -/
theorem isNumeral_toFixed (d : Decimal) : Json.IsNumeral d.toFixed := by
  obtain ⟨p, hchars, _⟩ := Decimal.exists_positional d
  rw [Decimal.toFixed_eq hchars]
  constructor
  · obtain ⟨c, cs, hcons, _⟩ := p.exists_chars_eq_cons
    intro hempty
    have hnil := congrArg String.toList hempty
    rw [String.toList_ofList, Numeral.Positional.signed, Decimal.signed, hcons] at hnil
    split at hnil <;> cases hnil
  · intro c hc
    rw [String.toList_ofList] at hc
    rcases Numeral.Positional.mem_signed hc with hdigit | hpoint | hminus
    · exact .inl hdigit
    · exact .inr (.inr hpoint)
    · exact .inr (.inl hminus)

/-- A number that can be represented is written so that it can be read back. -/
theorem exists_numeral {n : Decimal} (hn : Decimal.Context.standard.Represents n) :
    ∃ written, n.toText = .ok written ∧ Json.IsNumeral written
      ∧ Alike (.number n) (Json.number written).value := by
  obtain ⟨v, m, hshown, hread, hequals⟩ := (roundTrip_iff n).mpr hn
  have htext : toStringValue (.number n) = (ofArithmetic n.toText).map .string := rfl
  rcases n.toText_cases with ⟨_, hlarge⟩ | ⟨_, r, hwritten, _⟩
  · rw [htext, hlarge] at hshown
    cases hshown
  · rw [htext, hwritten] at hshown
    cases hshown
    refine ⟨r.toFixed, hwritten, isNumeral_toFixed r, ?_⟩
    simp only [Json.value, hread]
    exact .number (Decimal.equals_iff.mp hequals).symm

/-- The text of a map or object is that of the document with the sorted members. -/
theorem exists_object {fs : List (String × Value)} {members : List (String × Json)}
    {texts : List (String × String)} (hdistinct : (Table.keys fs).Nodup)
    (htexts : jsonFields fs = .ok texts)
    (hrelated : Table.Related (fun j t => Json.text j = t) members texts)
    (hwritten : Json.MembersWellWritten members)
    (halike : FieldsAlike (fieldsAsData fs) (Json.memberValues members)) :
    ∃ j : Json, "\x7b" ++ ",".intercalate (jsonMembers texts) ++ "\x7d" = j.text
      ∧ j.IsWellWritten ∧ Alike (.map (fieldsAsData fs)) j.value := by
  have hperm : (Sorting.sortKeys members).Perm members := Sorting.sortBy_perm _ members
  refine ⟨.object (Sorting.sortKeys members), ?_, ?_, ?_⟩
  · rw [Json.text, Json.memberTexts_eq hrelated.sortKeys]
    rfl
  · have hkeys : Table.keys members = Table.keys fs :=
      hrelated.keys_eq.symm.trans (keys_jsonFields htexts)
    rw [← hkeys] at hdistinct
    have hsorted : (Table.keys (Sorting.sortKeys members)).Nodup :=
      (hperm.map Prod.fst).nodup_iff.mpr hdistinct
    simp only [Json.IsWellWritten, Json.membersWellWritten_iff] at hwritten ⊢
    exact ⟨hsorted, fun m hm => hwritten m (hperm.mem_iff.mp hm)⟩
  · simp only [Json.value]
    exact .map (keys_fieldsAsData fs ▸ hdistinct) halike (Json.memberValues_perm hperm.symm)

mutual

/-- The text of a value in which all is known is that of a document with the data of the value. -/
theorem exists_document {v : Value} (hvalid : v.IsValid) (hknown : v.containsUnknown = false)
    (hexact : v.IsExact) :
    ∃ j : Json, v.toJson = .ok j.text ∧ j.IsWellWritten ∧ Alike v.asData j.value := by
  match v with
  | .null => exact ⟨.null, rfl, by simp only [Json.IsWellWritten], .null⟩
  | .unknown => simp [containsUnknown] at hknown
  | .bool b => exact ⟨.bool b, rfl, by simp only [Json.IsWellWritten], .bool b⟩
  | .string s => exact ⟨.string s, rfl, by simp only [Json.IsWellWritten], .string s⟩
  | .number n =>
    simp only [IsExact] at hexact
    obtain ⟨written, htext, hnumeral, halike⟩ := exists_numeral hexact
    exact ⟨.number written, htext, by simpa only [Json.IsWellWritten], halike⟩
  | .list vs =>
    simp only [IsValid, containsUnknown, IsExact] at hvalid hknown hexact
    obtain ⟨js, htexts, hwritten, halike⟩ := exists_items hvalid hknown hexact
    refine ⟨.array js, ?_, by simpa only [Json.IsWellWritten], ?_⟩
    · simp only [toJson, htexts, Json.text]
      rfl
    · simp only [asData, Json.value]
      exact .list halike
  | .set vs =>
    simp only [IsValid, containsUnknown, IsExact] at hvalid hknown hexact
    obtain ⟨js, htexts, hwritten, halike⟩ := exists_items hvalid.2 hknown hexact
    refine ⟨.array js, ?_, by simpa only [Json.IsWellWritten], ?_⟩
    · simp only [toJson, htexts, Json.text]
      rfl
    · simp only [asData, Json.value]
      exact .list halike
  | .map fs | .object fs =>
    simp only [IsValid, containsUnknown, IsExact] at hvalid hknown hexact
    obtain ⟨members, texts, htexts, hrelated, hwritten, halike⟩ :=
      exists_members hvalid.2 hknown hexact
    obtain ⟨j, htext, hj, hdata⟩ := exists_object hvalid.1 htexts hrelated hwritten halike
    refine ⟨j, ?_, hj, by simpa only [asData] using hdata⟩
    simp only [toJson, htexts]
    exact congrArg Except.ok htext

/-- The texts of some values are those of documents with the data of the values. -/
theorem exists_items {vs : List Value} (hvalid : ItemsValid vs)
    (hknown : anyContainsUnknown vs = false) (hexact : ItemsExact vs) :
    ∃ js, jsonItems vs = .ok (Json.itemTexts js) ∧ Json.ItemsWellWritten js
      ∧ ItemsAlike (itemsAsData vs) (Json.itemValues js) := by
  match vs with
  | [] => exact ⟨[], rfl, trivial, .nil⟩
  | v :: vs =>
    simp only [ItemsValid, anyContainsUnknown, Bool.or_eq_false_iff, ItemsExact]
      at hvalid hknown hexact
    obtain ⟨j, htext, hwritten, halike⟩ := exists_document hvalid.1 hknown.1 hexact.1
    obtain ⟨js, htexts, hwrittens, halikes⟩ := exists_items hvalid.2 hknown.2 hexact.2
    refine ⟨j :: js, ?_, ⟨hwritten, hwrittens⟩, .cons halike halikes⟩
    simp only [jsonItems, htext, htexts, Json.itemTexts]
    rfl

/-- The texts of the values of some fields are those of members with the data of the fields. -/
theorem exists_members {fs : List (String × Value)} (hvalid : FieldsValid fs)
    (hknown : anyFieldContainsUnknown fs = false) (hexact : FieldsExact fs) :
    ∃ members texts, jsonFields fs = .ok texts
      ∧ Table.Related (fun j t => Json.text j = t) members texts
      ∧ Json.MembersWellWritten members
      ∧ FieldsAlike (fieldsAsData fs) (Json.memberValues members) := by
  match fs with
  | [] => exact ⟨[], [], rfl, .nil, trivial, .nil⟩
  | (key, v) :: fs =>
    simp only [FieldsValid, anyFieldContainsUnknown, Bool.or_eq_false_iff, FieldsExact]
      at hvalid hknown hexact
    obtain ⟨j, htext, hwritten, halike⟩ := exists_document hvalid.1 hknown.1 hexact.1
    obtain ⟨members, texts, htexts, hrelated, hwrittens, halikes⟩ :=
      exists_members hvalid.2 hknown.2 hexact.2
    refine ⟨(key, j) :: members, (key, j.text) :: texts, ?_, .cons key rfl hrelated,
      ⟨hwritten, hwrittens⟩, .cons halike halikes⟩
    simp only [jsonFields, htext, htexts]
    rfl

end

/-! ## Texts and data -/

/-- The texts of two values are the same if the values are equal as data. -/
theorem toJson_eq_iff (hv : v.IsValid) (hw : w.IsValid) (hvknown : v.containsUnknown = false)
    (hwknown : w.containsUnknown = false) (hvexact : v.IsExact) (hwexact : w.IsExact) :
    v.toJson = w.toJson ↔ v.asData.equals w.asData = true := by
  obtain ⟨j, htext, hj, hdata⟩ := exists_document hv hvknown hvexact
  obtain ⟨k, htext', hk, hdata'⟩ := exists_document hw hwknown hwexact
  constructor
  · intro h
    -- Both texts are read as the same document.
    rw [htext, htext'] at h
    obtain rfl := Json.text_inj hj hk (Except.ok.inj h)
    rw [hdata.equals_congr hdata', ← hdata.equals_congr hdata]
    exact hv.asData.alike.equals
  · intro h
    rw [← toJson_asData v, ← toJson_asData w]
    exact ((equals_iff_alike hv.asData hw.asData).mp h).toJson_eq

/-- What the function of the library returns for a value in which all is known. -/
theorem call_jsonencode (hknown : v.containsUnknown = false) {text : String}
    (htext : v.toJson = .ok text) (span : Option Span) :
    Library.standard.call "jsonencode" [v] span = .ok (.string text) := by
  have hcall : Library.standard.call "jsonencode" [v] span =
      (Library.conversionFunction "jsonencode" .deep fun v =>
        (ofArithmetic v.toJson).map .string).invoke [v] span := rfl
  have hchecked : (Library.plainSignature "jsonencode" [(Param.any "value").orNull] .deep).problem?
      [v] = none := by
    cases v <;> rfl
  have hforward : (Library.plainSignature "jsonencode" [(Param.any "value").orNull]
      .deep).isUnknownCall [v] = false := by
    simp [Library.plainSignature, Signature.isUnknownCall, anyContainsUnknown, hknown]
  simp only [hcall, Library.conversionFunction, Function.invoke, hchecked, hforward, htext]
  rfl

/-- The JSON text of a value is canonical.  Every value in which all is known and every number can
be represented has one, which is read back as a document with the data of the value.  Two values
have the same text exactly if they are equal when sets are read as lists and objects as maps. -/
theorem jsonencode_canonical {a b : Value} (ha : a.Constructed) (hb : b.Constructed)
    (haknown : a.containsUnknown = false) (hbknown : b.containsUnknown = false)
    (haexact : a.IsExact) (hbexact : b.IsExact) (span : Option Span) :
    ∃ s t, Library.standard.call "jsonencode" [a] span = .ok (.string s)
      ∧ Library.standard.call "jsonencode" [b] span = .ok (.string t)
      ∧ (s = t ↔ a.asData.equals b.asData = true)
      ∧ ∃ j, Json.read? s = some j ∧ j.value.equals a.asData = true := by
  obtain ⟨j, htext, hj, hdata⟩ := exists_document ha.isValid haknown haexact
  obtain ⟨k, htext', _, _⟩ := exists_document hb.isValid hbknown hbexact
  refine ⟨j.text, k.text, call_jsonencode haknown htext span, call_jsonencode hbknown htext' span,
    ?_, j, Json.read?_text hj, ?_⟩
  · rw [← toJson_eq_iff ha.isValid hb.isValid haknown hbknown haexact hbexact, htext, htext',
      Except.ok.injEq]
  · rw [← hdata.equals_congr ha.isValid.asData.alike]
    exact ha.isValid.asData.alike.equals

/-- An object and a map with the same data: the fields stand in two orders, the number is written in
two ways, and the elements of a set are those of a list. -/
theorem jsonencode_canonical_sizes :
    let one : Value := .number ⟨false, 1, 0⟩
    let tenTenths : Value := .number ⟨false, 10, -1⟩
    let a : Value := .object (Table.ofList
      [("size", tenTenths), ("tags", setOf [.string "é\"", one])])
    let b : Value := .map (Table.ofList
      [("tags", .list [tenTenths, .string "é\""]), ("size", one)])
    a.Constructed ∧ b.Constructed ∧ a.containsUnknown = false ∧ b.containsUnknown = false
      ∧ a.IsExact ∧ b.IsExact
      ∧ ∃ s, Library.standard.call "jsonencode" [a] none = .ok (.string s)
        ∧ Library.standard.call "jsonencode" [b] none = .ok (.string s) := by
  intro one tenTenths a b
  have ha : a.Constructed := by
    have htags : Constructed (setOf [.string "é\"", one]) := .set (by simp [one])
    exact .object (by simp [tenTenths, htags])
  have hb : b.Constructed := by
    have htags : Constructed (.list [tenTenths, .string "é\""]) := .list (by simp [tenTenths])
    exact .map (by simp [one, htags])
  have haknown : a.containsUnknown = false := by decide +kernel
  have hbknown : b.containsUnknown = false := by decide +kernel
  have hone : Decimal.Context.standard.Represents ⟨false, 1, 0⟩ :=
    ⟨⟨false, 1, 0⟩, rfl, by decide, by decide, by decide⟩
  have htenTenths : Decimal.Context.standard.Represents ⟨false, 10, -1⟩ :=
    ⟨⟨false, 10, -1⟩, rfl, by decide, by decide, by decide⟩
  have hstored : setOf [.string "é\"", one] = .set [one, .string "é\""] := by cbv
  have haexact : a.IsExact := by
    have htags : (setOf [.string "é\"", one]).IsExact := by
      rw [hstored]
      exact ⟨hone, trivial, trivial⟩
    exact ⟨htenTenths, htags, trivial⟩
  have hbexact : b.IsExact := ⟨⟨htenTenths, trivial, trivial⟩, hone, trivial⟩
  obtain ⟨s, t, hs, ht, hsame, _⟩ :=
    jsonencode_canonical ha hb haknown hbknown haexact hbexact none
  obtain rfl := hsame.mpr (by decide +kernel)
  exact ⟨ha, hb, haknown, hbknown, haexact, hbexact, s, hs, ht⟩

end Value

end Groundplan
