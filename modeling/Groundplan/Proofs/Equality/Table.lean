import Groundplan.Proofs.Table
import Mathlib.Data.List.Perm.Basic

/-!
# Tables That Differ in Order

Two tables are similar if they have the same keys, in any order, and related values under them.
Similar tables are told by their look-ups, and sorting them by their keys makes them related place
by place.

## Main Definitions

- `Table.Similar`

## Main Statements

- `Table.similar_iff_get?`: tables are similar if look-ups give related values
- `Table.Similar.sortKeys`: sorted by their keys, similar tables are related
- `Table.Similar.putAll`: similar tables may be stored over similar ones
-/

namespace Groundplan

namespace Table

variable {κ α β γ δ : Type}

/-- Two tables have different keys, and the same ones in any order, with related values. -/
structure Similar (R : α → β → Prop) (t : Table κ α) (u : Table κ β) : Prop where
  distinct : (keys t).Nodup
  /-- The second table may be put into the order of the first one. -/
  aligned : ∃ u', Related R t u' ∧ u'.Perm u

theorem Related.similar {R : α → β → Prop} {t : Table κ α} {u : Table κ β} (h : Related R t u)
    (hdistinct : (keys t).Nodup) : Similar R t u :=
  ⟨hdistinct, u, h, List.Perm.refl u⟩

section Lookup

variable [DecidableEq κ]

/-- The order of different keys does not matter to look-ups. -/
theorem get?_perm {t u : Table κ α} (h : t.Perm u) (hdistinct : (keys t).Nodup) (key : κ) :
    get? t key = get? u key := by
  have hdistinct' : (keys u).Nodup := (h.map Prod.fst).nodup_iff.mp hdistinct
  ext value
  rw [← mem_iff_get?_eq_some hdistinct, ← mem_iff_get?_eq_some hdistinct', h.mem_iff]

/-- The first entry with a key may be taken out. -/
theorem perm_cons_erase {t : Table κ α} (hdistinct : (keys t).Nodup) {key : κ} {value : α}
    (h : get? t key = some value) : ((key, value) :: erase t key).Perm t := by
  induction t with
  | nil => cases h
  | cons entry rest ih =>
    obtain ⟨k, v⟩ := entry
    obtain ⟨hfresh, hrest⟩ := List.nodup_cons.mp hdistinct
    by_cases hk : k = key
    · subst hk
      have hvalue : v = value := by simpa [get?] using h
      have hkeep : erase rest k = rest := List.filter_eq_self.mpr fun e he =>
        decide_eq_true fun hek : e.1 = k => hfresh (List.mem_map.mpr ⟨e, he, hek⟩)
      have herase : erase ((k, v) :: rest) k = rest := by
        rw [← hkeep]
        simp [erase]
      rw [herase, hvalue]
    · have hfound : get? rest key = some value := by simpa [get?, hk] using h
      have herase : erase ((k, v) :: rest) key = (k, v) :: erase rest key := by simp [erase, hk]
      rw [herase]
      exact (List.Perm.swap _ _ _).trans ((ih hrest hfound).cons _)

theorem nodup_keys_erase {t : Table κ α} (hdistinct : (keys t).Nodup) (key : κ) :
    (keys (erase t key)).Nodup :=
  hdistinct.sublist ((List.filter_sublist).map Prod.fst)

end Lookup

namespace Similar

variable {R : α → β → Prop} {t : Table κ α} {u : Table κ β}

theorem keys_perm (h : Similar R t u) : (keys t).Perm (keys u) := by
  obtain ⟨u', hrelated, hperm⟩ := h.aligned
  rw [← hrelated.keys_eq]
  exact hperm.map Prod.fst

theorem distinct_right (h : Similar R t u) : (keys u).Nodup :=
  h.keys_perm.nodup_iff.mp h.distinct

theorem length_eq (h : Similar R t u) : t.length = u.length := by
  simpa [keys] using h.keys_perm.length_eq

/-- The values without their keys, in any order. -/
theorem values (h : Similar R t u) :
    ∃ ws, List.Forall₂ R (t.map Prod.snd) ws ∧ ws.Perm (u.map Prod.snd) := by
  obtain ⟨u', hrelated, hperm⟩ := h.aligned
  exact ⟨_, hrelated.values, hperm.map Prod.snd⟩

theorem map {S : γ → δ → Prop} {f : α → γ} {g : β → δ} (h : Similar R t u)
    (hmap : ∀ v w, R v w → S (f v) (g w)) :
    Similar S (t.map fun entry => (entry.1, f entry.2))
      (u.map fun entry => (entry.1, g entry.2)) := by
  obtain ⟨u', hrelated, hperm⟩ := h.aligned
  refine ⟨?_, _, hrelated.map hmap, hperm.map _⟩
  simpa [keys, Function.comp_def] using h.distinct

variable [DecidableEq κ]

/-- A key finds nothing in both tables, or related values. -/
theorem get? (h : Similar R t u) (key : κ) :
    Option.Rel R (Table.get? t key) (Table.get? u key) := by
  obtain ⟨u', hrelated, hperm⟩ := h.aligned
  rw [← get?_perm hperm (hrelated.keys_eq ▸ h.distinct)]
  exact hrelated.get? key

theorem has_eq (h : Similar R t u) (key : κ) : has t key = has u key := by
  have hget := h.get? key
  unfold has
  generalize Table.get? t key = found at hget
  generalize Table.get? u key = found' at hget
  cases hget <;> rfl

end Similar

variable [DecidableEq κ] {R : α → β → Prop}

/-- Tables whose look-ups give related values are similar. -/
theorem similar_of_get? {t : Table κ α} {u : Table κ β} (ht : (keys t).Nodup)
    (hu : (keys u).Nodup) (h : ∀ key, Option.Rel R (get? t key) (get? u key)) :
    Similar R t u := by
  refine ⟨ht, ?_⟩
  induction t generalizing u with
  | nil =>
    -- A table in which no key is found has no entries.
    cases u with
    | nil => exact ⟨[], .nil, List.Perm.refl _⟩
    | cons entry rest =>
      have hkey := h entry.1
      simp only [get?, if_true] at hkey
      cases hkey
  | cons entry rest ih =>
    obtain ⟨k, v⟩ := entry
    obtain ⟨hfresh, hrest⟩ := List.nodup_cons.mp ht
    have hk := h k
    simp only [get?, if_true] at hk
    generalize hfound : get? u k = found at hk
    cases hk with
    | @some _ w hvw =>
      -- The entry of the second table with the same key is taken out.
      have herase : ∀ key, Option.Rel R (get? rest key) (get? (erase u k) key) := by
        intro key
        by_cases hkey : k = key
        · subst hkey
          have hnone : get? rest k = none := by
            rw [← Option.not_isSome_iff_eq_none]
            exact fun hsome => hfresh ((has_iff_mem_keys rest k).mp hsome)
          rw [hnone, get?_erase_self]
          exact .none
        · have hother := h key
          rw [get?_erase_of_ne u hkey]
          simpa only [get?, if_neg hkey] using hother
      obtain ⟨u', hrelated, hperm⟩ := ih hrest (nodup_keys_erase hu k) herase
      exact ⟨(k, w) :: u', .cons k hvw hrelated,
        (hperm.cons (k, w)).trans (perm_cons_erase hu hfound)⟩

/-- Tables with different keys are similar if look-ups give related values. -/
theorem similar_iff_get? {t : Table κ α} {u : Table κ β} (ht : (keys t).Nodup)
    (hu : (keys u).Nodup) :
    Similar R t u ↔ ∀ key, Option.Rel R (get? t key) (get? u key) :=
  ⟨fun h key => h.get? key, similar_of_get? ht hu⟩

/-- Similar tables may be stored over similar ones. -/
theorem Similar.putAll {t entries : Table κ α} {u entries' : Table κ β} (h : Similar R t u)
    (hentries : Similar R entries entries') :
    Similar R (Table.putAll t entries) (Table.putAll u entries') := by
  refine similar_of_get? (nodup_keys_putAll t entries h.distinct)
    (nodup_keys_putAll u entries' h.distinct_right) fun key => ?_
  rw [get?_putAll hentries.distinct, get?_putAll hentries.distinct_right]
  -- What has been stored is found first, in both tables or in neither.
  have hold := h.get? key
  have hnew := hentries.get? key
  generalize Table.get? entries key = found at hnew
  generalize Table.get? entries' key = found' at hnew
  cases hnew with
  | some hvw => exact .some hvw
  | none => exact hold

/-- Sorted by their keys, similar tables are related place by place. -/
theorem Similar.sortKeys {R : α → β → Prop} {t : Table String α} {u : Table String β}
    (h : Similar R t u) : Related R (Sorting.sortKeys t) (Sorting.sortKeys u) := by
  obtain ⟨u', hrelated, hperm⟩ := h.aligned
  have hdistinct : (keys u').Nodup := hrelated.keys_eq ▸ h.distinct
  have hsorted : Sorting.sortKeys u' = Sorting.sortKeys u := by
    refine Sorting.sortBy_eq_of_perm (by simpa using fun a _ b _ => String.le_total a b)
      (by simpa using fun a _ b _ c _ => String.le_trans) hperm ?_
    intro a ha b hb hab hba
    -- Different entries have different keys.
    exact List.inj_on_of_nodup_map hdistinct ha hb
      (String.le_antisymm (of_decide_eq_true hab) (of_decide_eq_true hba))
  exact hsorted ▸ hrelated.sortKeys

end Table

end Groundplan
