import Groundplan.Proofs.Evaluation
import Groundplan.Proofs.Outcome
import Groundplan.Proofs.Table
import Mathlib.Algebra.GroupWithZero.Nat

/-!
# Groups of a Comprehension

A comprehension with keys either groups the values that share a key, or refuses a key that comes
again; without keys it makes the list of all values.  Grouping is a partition of this list that
keeps its order: every value is in the group of its key, once, and where every group is of one value
the comprehension without groups makes the same table of single values.

All three go through the same elements.  The elements that the filter keeps, each with the text of
its key and its value, are what the three results are made of.

## Main Definitions

- `Filed`: the elements that are kept, with keys and values
- `Table.file`: a value at the end of the group of its key
- `Table.Partitions`: groups that partition values by their keys

## Main Statements

- `Table.partitions_foldl_file`: filing values one after another partitions them
- `Harvest.foldlM_add_single`: without groups, a key that comes again is refused
- `grouping_partitions`
-/

namespace Groundplan

/-! ## Groups -/

namespace Table

variable {α : Type}

/-- A value at the end of the group of its key, which is new if there is none. -/
def file (t : Table String (List α)) (entry : String × α) : Table String (List α) :=
  put t entry.1 ((get? t entry.1).getD [] ++ [entry.2])

/-- Groups partition entries by their keys: each key has a group, and the group has the values of
the entries with this key in their order. -/
structure Partitions (t : Table String (List α)) (entries : List (String × α)) : Prop where
  distinct : (keys t).Nodup
  keys : ∀ key, key ∈ keys t ↔ ∃ entry ∈ entries, entry.1 = key
  groups : ∀ group ∈ t,
    group.2 = (entries.filter fun entry => entry.1 = group.1).map Prod.snd
  /-- Nothing is lost or repeated. -/
  values : (t.flatMap Prod.snd).Perm (entries.map Prod.snd)
  sizes : (t.map fun group => group.2.length).sum = entries.length

theorem get?_file (t : Table String (List α)) (entry : String × α) (key : String) :
    (get? (file t entry) key).getD []
      = (get? t key).getD [] ++ if entry.1 = key then [entry.2] else [] := by
  rw [file, get?_put]
  split
  · next h => simp [h]
  · simp

/-- Filing adds one value. -/
theorem values_file (t : Table String (List α)) (entry : String × α) :
    ((file t entry).flatMap Prod.snd).Perm (t.flatMap Prod.snd ++ [entry.2]) := by
  unfold file
  induction t with
  | nil => simp [put_nil]
  | cons group rest ih =>
    obtain ⟨key, values⟩ := group
    by_cases hkey : key = entry.1
    · simp only [put_cons, get?_cons, hkey, if_true, Option.getD_some, List.flatMap_cons, List.append_assoc]
      exact List.perm_append_comm.append_left values
    · simp only [put_cons, get?_cons, hkey, if_false, List.flatMap_cons, List.append_assoc]
      exact ih.append_left values

variable {t : Table String (List α)} {entries : List (String × α)}

theorem nodup_keys_foldl_file (distinct : (keys t).Nodup) :
    (keys (entries.foldl file t)).Nodup := by
  induction entries generalizing t with
  | nil => exact distinct
  | cons entry rest ih => exact ih (nodup_keys_put t _ _ distinct)

theorem mem_keys_foldl_file (t : Table String (List α)) (entries : List (String × α))
    (key : String) :
    key ∈ keys (entries.foldl file t) ↔ key ∈ keys t ∨ ∃ entry ∈ entries, entry.1 = key := by
  induction entries generalizing t with
  | nil => simp
  | cons entry rest ih =>
    rw [List.foldl_cons, ih, file, ← has_iff_mem_keys, has_put_iff, has_iff_mem_keys]
    simp only [List.exists_mem_cons_iff]
    tauto

theorem get?_foldl_file (t : Table String (List α)) (entries : List (String × α)) (key : String) :
    (get? (entries.foldl file t) key).getD [] = (get? t key).getD []
      ++ (entries.filter fun entry => entry.1 = key).map Prod.snd := by
  induction entries generalizing t with
  | nil => simp
  | cons entry rest ih =>
    rw [List.foldl_cons, ih, get?_file, List.append_assoc, List.filter_cons]
    split <;> simp [*]

theorem values_foldl_file :
    ((entries.foldl file t).flatMap Prod.snd).Perm
      (t.flatMap Prod.snd ++ entries.map Prod.snd) := by
  induction entries generalizing t with
  | nil => simp
  | cons entry rest ih =>
    refine ih.trans ((values_file t entry).append_right _ |>.trans ?_)
    simp

/-- Values that are filed one after another are partitioned by their keys. -/
theorem partitions_foldl_file (entries : List (String × α)) :
    Partitions (entries.foldl file []) entries := by
  have hdistinct : (keys (entries.foldl file [])).Nodup := nodup_keys_foldl_file List.nodup_nil
  have hvalues : ((entries.foldl file []).flatMap Prod.snd).Perm (entries.map Prod.snd) :=
    values_foldl_file
  refine ⟨hdistinct, fun key => ?_, fun group hgroup => ?_, hvalues, ?_⟩
  · simpa [keys] using mem_keys_foldl_file [] entries key
  · have hget := (mem_iff_get?_eq_some hdistinct).mp hgroup
    simpa [hget] using get?_foldl_file [] entries group.1
  · simpa [List.length_flatMap] using hvalues.length_eq

/-- Under different keys each value has a group of its own. -/
theorem foldl_file_of_nodup (distinct : (keys t ++ entries.map Prod.fst).Nodup) :
    entries.foldl file t = t ++ entries.map fun entry => (entry.1, [entry.2]) := by
  induction entries generalizing t with
  | nil => simp
  | cons entry rest ih =>
    have hfresh : entry.1 ∉ keys t := by
      intro hmem
      exact (List.nodup_append.mp distinct).2.2 _ hmem _ List.mem_cons_self rfl
    have hfile : file t entry = t ++ [(entry.1, [entry.2])] := by
      have hnone : get? t entry.1 = none := by
        simpa [has] using (has_iff_mem_keys t entry.1).not.mpr hfresh
      rw [file, hnone, put_of_not_mem _ hfresh]
      rfl
    rw [List.foldl_cons, hfile, ih (by simpa [keys] using distinct)]
    simp

/-- Groups are of one value each just if no key comes again. -/
theorem Partitions.single_iff (h : Partitions t entries) :
    (∀ group ∈ t, group.2.length = 1) ↔ (entries.map Prod.fst).Nodup := by
  have hsize : ∀ group ∈ t, group.2.length = (entries.map Prod.fst).count group.1 := by
    intro group hgroup
    rw [h.groups group hgroup, List.length_map, List.count, List.countP_map,
      ← List.countP_eq_length_filter]
    rfl
  rw [List.nodup_iff_count_eq_one]
  constructor
  · intro hsingle key hkey
    obtain ⟨entry, hentry, rfl⟩ := List.mem_map.mp hkey
    have hmem : entry.1 ∈ Table.keys t := (h.keys entry.1).mpr ⟨entry, hentry, rfl⟩
    obtain ⟨group, hgroup, hkey⟩ := List.mem_map.mp hmem
    rw [← hkey, ← hsize group hgroup]
    exact hsingle group hgroup
  · intro hcount group hgroup
    rw [hsize group hgroup]
    obtain ⟨entry, hentry, hkey⟩ := (h.keys group.1).mp (List.mem_map_of_mem hgroup)
    exact hcount group.1 (List.mem_map.mpr ⟨entry, hentry, hkey⟩)

end Table

/-! ## Turns -/

/-- What a turn files under a key. -/
def Turn.entry? : Turn → Option (String × Value)
  | .entry key v => some (key, v)
  | .skipped | .undecided | .item _ => none

/-- Whether a turn leaves open what belongs to the result. -/
def Turn.isUndecided : Turn → Bool
  | .undecided => true
  | .skipped | .item _ | .entry .. => false

namespace Harvest

variable {span : Option Span} {grouping : Bool}

/-- Collect what turns give, one after another. -/
def addAll (h : Harvest) (grouping : Bool) (span : Option Span) (turns : List Turn) :
    Outcome Harvest :=
  turns.foldlM (fun h turn => h.add grouping span turn) h

theorem addAll_cons {h next : Harvest} {turn : Turn} (hadd : h.add grouping span turn = .ok next)
    (rest : List Turn) :
    h.addAll grouping span (turn :: rest) = next.addAll grouping span rest := by
  rw [addAll, List.foldlM_cons, hadd]
  rfl

theorem add_grouping (h : Harvest) (key : String) (v : Value) :
    h.add true span (.entry key v)
      = .ok { h with entries := Table.file h.entries (key, v) } := by
  simp only [add, Table.file]
  cases Table.get? h.entries key <;> rfl

theorem add_of_not_mem {h : Harvest} {key : String} (hfresh : key ∉ Table.keys h.entries)
    (v : Value) :
    h.add grouping span (.entry key v)
      = .ok { h with entries := h.entries ++ [(key, [v])] } := by
  have hnone : Table.get? h.entries key = none := by
    simpa [Table.has] using (Table.has_iff_mem_keys h.entries key).not.mpr hfresh
  simp only [add, hnone, Table.put_of_not_mem _ hfresh]

theorem add_of_mem {h : Harvest} {key : String} (hkey : key ∈ Table.keys h.entries) (v : Value) :
    h.add false span (.entry key v) = fail (.duplicateKey key) span := by
  obtain ⟨earlier, hearlier⟩ : ∃ earlier, Table.get? h.entries key = some earlier := by
    rwa [← Option.isSome_iff_exists, ← Table.has, Table.has_iff_mem_keys]
  simp [add, hearlier]

/-- With groups the entries are filed, and nothing is refused. -/
theorem addAll_grouping (span : Option Span) (turns : List Turn) (h : Harvest) :
    ∃ items, h.addAll true span turns
      = .ok ⟨h.undecided || turns.any Turn.isUndecided, items,
          (turns.filterMap Turn.entry?).foldl Table.file h.entries⟩ := by
  induction turns generalizing h with
  | nil => exact ⟨h.items, by simp [addAll, pure, Except.pure]⟩
  | cons turn rest ih =>
    cases turn with
    | skipped => exact ih h
    | undecided =>
      rw [addAll_cons rfl]
      simpa [Turn.isUndecided, Turn.entry?, List.filterMap_cons] using
        ih { h with undecided := true }
    | item v => exact ih { h with items := h.items ++ [v] }
    | entry key v =>
      rw [addAll_cons (add_grouping h key v)]
      exact ih { h with entries := Table.file h.entries (key, v) }

/-- Without groups each entry comes behind the earlier ones if no key comes again. -/
theorem addAll_single (span : Option Span) (turns : List Turn) {h : Harvest}
    (distinct : (Table.keys h.entries ++ (turns.filterMap Turn.entry?).map Prod.fst).Nodup) :
    ∃ items, h.addAll false span turns
      = .ok ⟨h.undecided || turns.any Turn.isUndecided, items,
          h.entries ++ (turns.filterMap Turn.entry?).map fun entry => (entry.1, [entry.2])⟩ := by
  induction turns generalizing h with
  | nil => exact ⟨h.items, by simp [addAll, pure, Except.pure]⟩
  | cons turn rest ih =>
    cases turn with
    | skipped => exact ih distinct
    | undecided =>
      rw [addAll_cons rfl]
      have hrest : ∃ items, ({ h with undecided := true } : Harvest).addAll false span rest = _ :=
        ih distinct
      simpa [Turn.isUndecided, Turn.entry?, List.filterMap_cons] using hrest
    | item v =>
      exact ih (h := { h with items := h.items ++ [v] }) distinct
    | entry key v =>
      have hfresh : key ∉ Table.keys h.entries := fun hkey =>
        (List.nodup_append.mp distinct).2.2 key hkey key List.mem_cons_self rfl
      rw [addAll_cons (add_of_not_mem hfresh v)]
      have hrest := ih (h := { h with entries := h.entries ++ [(key, [v])] })
        (by simpa [Table.keys, Turn.entry?] using distinct)
      simpa [Turn.entry?, Turn.isUndecided] using hrest

/-- Without groups a key that comes again is refused. -/
theorem addAll_duplicate (span : Option Span) (turns : List Turn) {h : Harvest}
    (distinct : (Table.keys h.entries).Nodup)
    (repeated : ¬ (Table.keys h.entries ++ (turns.filterMap Turn.entry?).map Prod.fst).Nodup) :
    ∃ key, h.addAll false span turns = fail (.duplicateKey key) span := by
  induction turns generalizing h with
  | nil => exact absurd (by simpa using distinct) repeated
  | cons turn rest ih =>
    cases turn with
    | skipped => exact ih distinct repeated
    | undecided => exact ih (h := { h with undecided := true }) distinct repeated
    | item v => exact ih (h := { h with items := h.items ++ [v] }) distinct repeated
    | entry key v =>
      by_cases hkey : key ∈ Table.keys h.entries
      · refine ⟨key, ?_⟩
        rw [addAll, List.foldlM_cons, add_of_mem hkey]
        rfl
      · rw [addAll_cons (add_of_not_mem hkey v)]
        refine ih (h := { h with entries := h.entries ++ [(key, [v])] }) ?_ ?_
        · rw [← Table.put_of_not_mem _ hkey]
          exact Table.nodup_keys_put _ _ _ distinct
        · simpa [Table.keys, Turn.entry?] using repeated

end Harvest

/-- If a loop succeeds, so do the turns of all elements. -/
theorem exists_mapM_of_foldlM {ε α β γ : Type} {turn : α → Except ε β} {add : γ → β → Except ε γ}
    {xs : List α} {start last : γ}
    (h : xs.foldlM (fun s x => turn x >>= add s) start = .ok last) :
    ∃ turns, xs.mapM turn = .ok turns := by
  induction xs generalizing start with
  | nil => exact ⟨[], rfl⟩
  | cons x rest ih =>
    rw [List.foldlM_cons] at h
    obtain ⟨next, hstep, h⟩ := bind_eq_ok_iff.mp h
    obtain ⟨first, hfirst, _⟩ := bind_eq_ok_iff.mp hstep
    obtain ⟨others, hothers⟩ := ih h
    refine ⟨first :: others, ?_⟩
    rw [List.mapM_cons, hfirst, hothers]
    rfl

/-- If the turns of all elements succeed, only putting down what they give may fail. -/
theorem foldlM_turn_of_mapM {ε α β γ : Type} {turn : α → Except ε β} (add : γ → β → Except ε γ)
    {xs : List α} {turns : List β} (h : xs.mapM turn = .ok turns) (start : γ) :
    xs.foldlM (fun s x => turn x >>= add s) start = turns.foldlM add start := by
  induction xs generalizing turns start with
  | nil =>
    cases h
    rfl
  | cons x rest ih =>
    rw [List.mapM_cons] at h
    obtain ⟨first, hfirst, h⟩ := bind_eq_ok_iff.mp h
    obtain ⟨others, hothers, h⟩ := bind_eq_ok_iff.mp h
    cases h
    rw [List.foldlM_cons, List.foldlM_cons, hfirst]
    exact bind_congr fun next => ih hothers next

/-! ## Elements that are kept -/

section

variable {library : Library} {span : Option Span} {filter : Option Expr} {key value : Expr}
  {inner : Value × Value → Scope}

/-- The elements that a filter keeps, in their order, each with the text of its key and its value;
all other elements are refused by the filter. -/
inductive Filed (library : Library) (span : Option Span) (filter : Option Expr) (key value : Expr)
    (inner : Value × Value → Scope) : List (Value × Value) → List (String × Value) → Prop where
  | nil : Filed library span filter key value inner [] []
  | refused {pair : Value × Value} {pairs : List (Value × Value)}
      {entries : List (String × Value)} :
      keepsElement library span filter (inner pair) = .ok (some false) →
      Filed library span filter key value inner pairs entries →
      Filed library span filter key value inner (pair :: pairs) entries
  | kept {pair : Value × Value} {pairs : List (Value × Value)} {entries : List (String × Value)}
      {k v : Value} {text : String} :
      keepsElement library span filter (inner pair) = .ok (some true) →
      key.evaluate library (inner pair) = .ok k → keyText k span = .ok text →
      value.evaluate library (inner pair) = .ok v →
      Filed library span filter key value inner pairs entries →
      Filed library span filter key value inner (pair :: pairs) ((text, v) :: entries)

/-- A turn with a key is refused, undecided, or files a value under the text of the key. -/
theorem elementTurn_cases {pair : Value × Value} {turn : Turn}
    (h : elementTurn library span filter (some key) value (inner pair) = .ok turn) :
    (turn = .skipped ∧ keepsElement library span filter (inner pair) = .ok (some false))
    ∨ turn = .undecided
    ∨ ∃ k v text, turn = .entry text v
      ∧ keepsElement library span filter (inner pair) = .ok (some true)
      ∧ key.evaluate library (inner pair) = .ok k ∧ keyText k span = .ok text
      ∧ value.evaluate library (inner pair) = .ok v := by
  obtain ⟨kept, hkept, h⟩ := bind_eq_ok_iff.mp h
  match kept with
  | none =>
    cases h
    exact .inr (.inl rfl)
  | some false =>
    cases h
    exact .inl ⟨rfl, hkept⟩
  | some true =>
    obtain ⟨k, hk, h⟩ := bind_eq_ok_iff.mp h
    obtain ⟨v, hv, h⟩ := bind_eq_ok_iff.mp h
    split at h
    · cases h
      exact .inr (.inl rfl)
    · obtain ⟨text, htext, h⟩ := bind_eq_ok_iff.mp h
      cases h
      exact .inr (.inr ⟨k, v, text, rfl, hkept, hk, htext, hv⟩)

/-- Turns that leave nothing open file the elements that are kept. -/
theorem Filed.of_turns {pairs : List (Value × Value)} {turns : List Turn}
    (h : pairs.mapM (fun pair => elementTurn library span filter (some key) value (inner pair))
      = .ok turns) (hdecided : turns.any Turn.isUndecided = false) :
    Filed library span filter key value inner pairs (turns.filterMap Turn.entry?) := by
  induction pairs generalizing turns with
  | nil =>
    cases h
    exact .nil
  | cons pair rest ih =>
    rw [List.mapM_cons] at h
    obtain ⟨turn, hturn, h⟩ := bind_eq_ok_iff.mp h
    obtain ⟨others, hothers, h⟩ := bind_eq_ok_iff.mp h
    cases h
    rw [List.any_cons, Bool.or_eq_false_iff] at hdecided
    have hrest := ih hothers hdecided.2
    rcases elementTurn_cases hturn with ⟨rfl, hkept⟩ | rfl | ⟨k, v, text, rfl, hkept, hk, htext, hv⟩
    · exact .refused hkept hrest
    · cases hdecided.1
    · exact .kept hkept hk htext hv hrest

/-- Without keys the values of the elements that are kept are collected. -/
theorem Filed.collect {pairs : List (Value × Value)} {entries : List (String × Value)}
    (h : Filed library span filter key value inner pairs entries) (collected : Harvest) :
    pairs.foldlM (fun harvest pair => do
        let turn ← elementTurn library span filter none value (inner pair)
        harvest.add false span turn) collected
      = .ok { collected with items := collected.items ++ entries.map Prod.snd } := by
  induction h generalizing collected with
  | nil => simp [pure, Except.pure]
  | refused hkept _ ih =>
    rw [List.foldlM_cons]
    simp only [elementTurn, hkept]
    exact ih collected
  | @kept pair _ _ k v _ hkept _ _ hv _ ih =>
    rw [List.foldlM_cons]
    simp only [elementTurn, hkept, contribution, hv]
    refine (ih { collected with items := collected.items ++ [v] }).trans ?_
    simp

end

/-! ## The three forms -/

section

variable {library : Library} {span : Option Span} {collection : Expr} {keyName : Option String}
  {valueName : String} {filter : Option Expr} {key value : Expr} {scope : Scope}
  {c : Value} {pairs : List (Value × Value)}

/-- Over a known collection, turns are collected one after another. -/
theorem evaluate_comprehension_of_iteration (hc : collection.evaluate library scope = .ok c)
    (hknown : c.isUnknown = false) (hpairs : c.iteration span = .ok pairs) (key : Option Expr)
    (grouping : Bool) :
    (Expr.comprehension span collection keyName valueName filter key value grouping).evaluate
        library scope = (do
      let harvest ← pairs.foldlM (fun harvest pair =>
        elementTurn library span filter key value
          (iterationScope scope keyName valueName pair.1 pair.2)
          >>= fun turn => harvest.add grouping span turn) Harvest.empty
      return harvest.result key.isSome grouping) := by
  rw [evaluate_comprehension, hc]
  show (if c.isUnknown then _ else _) = _
  rw [hknown, hpairs]
  rfl

/-- A comprehension with groups is unknown for an unknown collection, and otherwise made of the
turns of all elements. -/
theorem grouping_cases {v : Value}
    (h : (Expr.comprehension span collection keyName valueName filter (some key) value
      true).evaluate library scope = .ok v) :
    (collection.evaluate library scope = .ok .unknown ∧ v = .unknown)
    ∨ ∃ c pairs turns, collection.evaluate library scope = .ok c ∧ c.isUnknown = false
      ∧ c.iteration span = .ok pairs
      ∧ pairs.mapM (fun pair => elementTurn library span filter (some key) value
          (iterationScope scope keyName valueName pair.1 pair.2)) = .ok turns
      ∧ v = if turns.any Turn.isUndecided then .unknown
        else .map (((turns.filterMap Turn.entry?).foldl Table.file []).map
          fun group => (group.1, .list group.2)) := by
  have hform := h
  rw [evaluate_comprehension] at h
  obtain ⟨c, hc, h⟩ := bind_eq_ok_iff.mp h
  split at h
  · next hunknown =>
    cases h
    have hv : c = .unknown := by
      cases c <;> first | rfl | cases hunknown
    exact .inl ⟨hv ▸ hc, rfl⟩
  · next hknown =>
    rw [Bool.not_eq_true] at hknown
    obtain ⟨pairs, hpairs, _⟩ := bind_eq_ok_iff.mp h
    rw [evaluate_comprehension_of_iteration hc hknown hpairs] at hform
    obtain ⟨harvest, hharvest, hv⟩ := bind_eq_ok_iff.mp hform
    obtain ⟨turns, hturns⟩ := exists_mapM_of_foldlM hharvest
    obtain ⟨items, hall⟩ := Harvest.addAll_grouping span turns Harvest.empty
    rw [foldlM_turn_of_mapM _ hturns] at hharvest
    cases hharvest.symm.trans hall
    cases hv
    refine .inr ⟨c, pairs, turns, hc, hknown, hpairs, hturns, ?_⟩
    simp [Harvest.result, Harvest.empty]

/-- Without groups a comprehension is made of the same turns, unless a key comes again. -/
theorem single_of_turns {turns : List Turn} (hc : collection.evaluate library scope = .ok c)
    (hknown : c.isUnknown = false) (hpairs : c.iteration span = .ok pairs)
    (hturns : pairs.mapM (fun pair => elementTurn library span filter (some key) value
      (iterationScope scope keyName valueName pair.1 pair.2)) = .ok turns) :
    (((turns.filterMap Turn.entry?).map Prod.fst).Nodup →
      (Expr.comprehension span collection keyName valueName filter (some key) value
        false).evaluate library scope = .ok (if turns.any Turn.isUndecided then .unknown
          else .map (turns.filterMap Turn.entry?)))
    ∧ (¬ ((turns.filterMap Turn.entry?).map Prod.fst).Nodup →
      ∃ name, (Expr.comprehension span collection keyName valueName filter (some key) value
        false).evaluate library scope = fail (.duplicateKey name) span) := by
  rw [evaluate_comprehension_of_iteration hc hknown hpairs, foldlM_turn_of_mapM _ hturns]
  constructor
  · intro hdistinct
    have hall : ∃ items, Harvest.empty.addAll false span turns = _ :=
      Harvest.addAll_single span turns (by simpa [Harvest.empty, Table.keys] using hdistinct)
    obtain ⟨items, hall⟩ := hall
    rw [Harvest.addAll] at hall
    rw [hall]
    show Except.ok (Harvest.result _ true false) = _
    simp [Harvest.result, Harvest.empty, List.flatMap_map]
  · intro hrepeated
    have hall : ∃ name, Harvest.empty.addAll false span turns = fail (.duplicateKey name) span :=
      Harvest.addAll_duplicate span turns List.nodup_nil
        (by simpa [Harvest.empty, Table.keys] using hrepeated)
    obtain ⟨name, hall⟩ := hall
    refine ⟨name, ?_⟩
    rw [Harvest.addAll] at hall
    rw [hall]
    rfl

/-- Without keys a comprehension is the list of the values of the elements that are kept. -/
theorem list_of_filed {entries : List (String × Value)}
    (hc : collection.evaluate library scope = .ok c) (hknown : c.isUnknown = false)
    (hpairs : c.iteration span = .ok pairs)
    (h : Filed library span filter key value
      (fun pair => iterationScope scope keyName valueName pair.1 pair.2) pairs entries) :
    (Expr.comprehension span collection keyName valueName filter none value false).evaluate
      library scope = .ok (.list (entries.map Prod.snd)) := by
  rw [evaluate_comprehension_of_iteration hc hknown hpairs]
  have hcollect := h.collect Harvest.empty
  rw [hcollect]
  simp [Harvest.result, Harvest.empty, pure, Except.pure, bind, Except.bind]

end

/-- **Groups partition the values.**  If a comprehension with groups makes a map, the same
comprehension without keys makes a list, and the groups partition it by the texts of the keys that
its elements have, each in the order of the list.  Without groups the comprehension makes the map
of the single values if each group is of one value, and otherwise refuses a key that comes again.
If the comprehension with groups is unknown, the one without is so as well, or it refuses a key. -/
theorem grouping_partitions (library : Library) (span : Option Span) (collection : Expr)
    (keyName : Option String) (valueName : String) (filter : Option Expr) (key value : Expr)
    (scope : Scope) :
    let form (key : Option Expr) (grouping : Bool) : Outcome Value :=
      (Expr.comprehension span collection keyName valueName filter key value grouping).evaluate
        library scope
    (∀ groups, form (some key) true = .ok (.map groups) →
      ∃ c pairs entries, ∃ table : Table String (List Value),
        collection.evaluate library scope = .ok c ∧ c.iteration span = .ok pairs
        ∧ Filed library span filter key value
          (fun pair => iterationScope scope keyName valueName pair.1 pair.2) pairs entries
        ∧ form none false = .ok (.list (entries.map Prod.snd))
        ∧ groups = table.map (fun group => (group.1, .list group.2))
        ∧ table.Partitions entries
        ∧ ((∀ group ∈ table, group.2.length = 1) →
          ∃ singles, form (some key) false = .ok (.map singles)
            ∧ table = singles.map fun single => (single.1, [single.2]))
        ∧ ((∃ group ∈ table, group.2.length ≠ 1) →
          ∃ name, form (some key) false = fail (.duplicateKey name) span))
    ∧ (form (some key) true = .ok .unknown →
      form (some key) false = .ok .unknown
        ∨ ∃ name, form (some key) false = fail (.duplicateKey name) span) := by
  intro form
  constructor
  · intro groups hgroups
    rcases grouping_cases hgroups with ⟨_, hv⟩ | ⟨c, pairs, turns, hc, hknown, hpairs, hturns, hv⟩
    · cases hv
    · split at hv
      · cases hv
      · next hdecided =>
        rw [Bool.not_eq_true] at hdecided
        have hfiled := Filed.of_turns hturns hdecided
        have hpartitions := Table.partitions_foldl_file (turns.filterMap Turn.entry?)
        obtain ⟨hsingle, hrepeated⟩ := single_of_turns hc hknown hpairs hturns
        refine ⟨c, pairs, turns.filterMap Turn.entry?, _, hc, hpairs, hfiled,
          list_of_filed hc hknown hpairs hfiled, Value.map.inj hv, hpartitions, fun hones => ?_,
          fun hmany => ?_⟩
        · have hdistinct := hpartitions.single_iff.mp hones
          refine ⟨_, (hsingle hdistinct).trans (by rw [hdecided]; rfl), ?_⟩
          rw [Table.foldl_file_of_nodup (by simpa [Table.keys] using hdistinct), List.nil_append]
        · refine hrepeated fun hdistinct => ?_
          obtain ⟨group, hgroup, hlength⟩ := hmany
          exact hlength (hpartitions.single_iff.mpr hdistinct group hgroup)
  · intro hunknown
    rcases grouping_cases hunknown with
      ⟨hc, _⟩ | ⟨c, pairs, turns, hc, hknown, hpairs, hturns, hv⟩
    · left
      show (Expr.comprehension span collection keyName valueName filter (some key) value
        false).evaluate library scope = _
      rw [evaluate_comprehension, hc]
      rfl
    · obtain ⟨hsingle, hrepeated⟩ := single_of_turns hc hknown hpairs hturns
      by_cases hdistinct : ((turns.filterMap Turn.entry?).map Prod.fst).Nodup
      · left
        split at hv
        · next hundecided => exact (hsingle hdistinct).trans (by rw [if_pos hundecided])
        · cases hv
      · exact .inr (hrepeated hdistinct)

/-- Words under their first letters: the list of all, two groups, and a letter that comes again. -/
theorem grouping_partitions_words :
    let words := SymbolPath.bound "words"
    let word := SymbolPath.bound "word"
    let scope : Scope := Scope.child [] [(words, .list [.object [("a", .string "l"),
      ("w", .string "log")], .object [("a", .string "d"), ("w", .string "disk")],
      .object [("a", .string "l"), ("w", .string "lock")]])]
    let form (key : Option Expr) (grouping : Bool) : Outcome Value :=
      (Expr.comprehension none (.ref none words) none "word" none key
        (.access none (.ref none word) "w") grouping).evaluate Library.standard scope
    let key : Expr := .access none (.ref none word) "a"
    form (some key) true = .ok (.map [("l", .list [.string "log", .string "lock"]),
        ("d", .list [.string "disk"])])
      ∧ (∃ items : List Value, form none false = .ok (.list items) ∧ items.length = 3)
      ∧ ∃ name, form (some key) false = fail (.duplicateKey name) none := by
  intro words word scope form key
  have hgroups : form (some key) true = .ok (.map [("l", .list [.string "log", .string "lock"]),
      ("d", .list [.string "disk"])]) := by
    unfold form scope key words word
    rw [evaluate_comprehension]
    rfl
  obtain ⟨_, _, entries, table, _, _, _, hlist, htable, hpartitions, _, hrepeated⟩ :=
    (grouping_partitions Library.standard none (.ref none words) none "word" none key
      (.access none (.ref none word) "w") scope).1 _ hgroups
  have hinjective : Function.Injective fun group : String × List Value =>
      (group.1, Value.list group.2) := by
    rintro ⟨_, _⟩ ⟨_, _⟩ h
    simpa using h
  have hfound : table = [("l", [.string "log", .string "lock"]), ("d", [.string "disk"])] :=
    List.map_injective_iff.mpr hinjective htable.symm
  refine ⟨hgroups, ⟨_, hlist, ?_⟩, hrepeated ⟨("l", _), hfound ▸ List.mem_cons_self, by decide⟩⟩
  rw [List.length_map, ← hpartitions.sizes, hfound]
  rfl

end Groundplan
