import Groundplan.Sorting
import Groundplan.Table
import Mathlib.Data.List.Forall2
import Mathlib.Data.List.Nodup

/-!
# Laws of Tables

Tables of entries may be stored one over the other in any grouping.  Two tables are related if
they have the same keys in the same order and related values under them; whatever is done to
both tables alike keeps them related.

## Main Definitions

- `Table.Related`

## Main Statements

- `Table.perm_of_get?_eq`: a table with different keys is known from its look-ups
- `Table.putAll_putAll`: storing over what has been stored
- `Table.Related.get?`: a look-up finds nothing in both tables, or related values
- `Table.Related.put`: related values may be stored in both tables
-/

namespace Groundplan

namespace Table

variable {κ α β γ δ : Type}

/-- The keys of a table with one more entry. -/
theorem has_put_iff [DecidableEq κ] (t : Table κ α) (key other : κ) (value : α) :
    has (put t key value) other = true ↔ key = other ∨ has t other = true := by
  unfold has
  rw [get?_put]
  by_cases hkey : key = other
  · simp [hkey]
  · simp [hkey]

/-- A look-up among the entries whose keys pass a test. -/
theorem get?_filter [DecidableEq κ] (t : Table κ α) (test : κ → Bool) (key : κ) :
    get? (t.filter fun entry => test entry.1) key = if test key then get? t key else none := by
  induction t with
  | nil => simp
  | cons entry rest ih =>
    obtain ⟨k, v⟩ := entry
    by_cases hk : k = key
    · subst hk
      cases htest : test k with
      | true => simp [htest, get?_cons]
      | false => simpa [List.filter_cons, htest] using ih
    · cases htest : test k with
      | true => simpa [List.filter_cons, htest, get?_cons, hk] using ih
      | false => simpa [List.filter_cons, htest, get?_cons, hk] using ih

/-- What a look-up finds is an entry. -/
theorem mem_of_get?_eq_some [DecidableEq κ] {t : Table κ α} {key : κ} {value : α}
    (h : get? t key = some value) : (key, value) ∈ t := by
  induction t with
  | nil => cases h
  | cons entry rest ih =>
    obtain ⟨k, v⟩ := entry
    rw [get?_cons] at h
    split at h
    · next hk =>
      cases h
      exact hk ▸ List.mem_cons_self
    · exact List.mem_cons_of_mem _ (ih h)

/-- Storing brings in no other entry than the one that is stored. -/
theorem eq_or_mem_of_mem_put [DecidableEq κ] {t : Table κ α} {key : κ} {value : α}
    {entry : κ × α} (h : entry ∈ put t key value) : entry = (key, value) ∨ entry ∈ t := by
  induction t with
  | nil => exact .inl (List.mem_singleton.mp h)
  | cons first rest ih =>
    obtain ⟨k, v⟩ := first
    rw [put_cons] at h
    split at h
    · next hk =>
      rcases List.mem_cons.mp h with rfl | hrest
      · exact .inl (by rw [hk])
      · exact .inr (List.mem_cons_of_mem _ hrest)
    · rcases List.mem_cons.mp h with rfl | hrest
      · exact .inr List.mem_cons_self
      · exact (ih hrest).imp id fun hmem => List.mem_cons_of_mem _ hmem

/-- Storing many values brings in no other entries than those that are stored. -/
theorem mem_or_mem_of_mem_putAll [DecidableEq κ] {t : Table κ α} {entries : List (κ × α)}
    {entry : κ × α} (h : entry ∈ putAll t entries) : entry ∈ entries ∨ entry ∈ t := by
  induction entries generalizing t with
  | nil => exact .inr h
  | cons first rest ih =>
    rcases ih h with hrest | hput
    · exact .inl (List.mem_cons_of_mem first hrest)
    · rcases eq_or_mem_of_mem_put hput with rfl | hmem
      · exact .inl List.mem_cons_self
      · exact .inr hmem

theorem mem_of_mem_ofList [DecidableEq κ] {entries : List (κ × α)} {entry : κ × α}
    (h : entry ∈ ofList entries) : entry ∈ entries :=
  (mem_or_mem_of_mem_putAll h).resolve_right List.not_mem_nil

/-- The keys of a table over which values are stored. -/
theorem mem_keys_putAll [DecidableEq κ] (t : Table κ α) (entries : List (κ × α)) (key : κ) :
    key ∈ keys (putAll t entries) ↔ key ∈ keys t ∨ key ∈ keys entries := by
  induction entries generalizing t with
  | nil => simp [putAll, keys]
  | cons entry rest ih =>
    show key ∈ keys (putAll (put t entry.1 entry.2) rest) ↔ _
    rw [ih, ← has_iff_mem_keys, has_put_iff, has_iff_mem_keys]
    simp only [keys, List.map_cons, List.mem_cons]
    tauto

theorem mem_keys_ofList [DecidableEq κ] (entries : List (κ × α)) (key : κ) :
    key ∈ keys (ofList entries) ↔ key ∈ keys entries := by
  rw [ofList, mem_keys_putAll]
  simp [keys]

/-- A new key comes last. -/
theorem put_of_not_mem [DecidableEq κ] {t : Table κ α} {key : κ} (value : α)
    (h : key ∉ keys t) : put t key value = t ++ [(key, value)] := by
  induction t with
  | nil => rfl
  | cons entry rest ih =>
    obtain ⟨k, v⟩ := entry
    obtain ⟨hk, hrest⟩ : key ≠ k ∧ key ∉ keys rest := by simpa [keys] using h
    rw [put_cons, if_neg hk.symm, ih hrest, List.cons_append]

/-- Entries with new and different keys come last, in their order. -/
theorem putAll_of_nodup [DecidableEq κ] {t entries : Table κ α}
    (h : (keys (t ++ entries)).Nodup) : putAll t entries = t ++ entries := by
  induction entries generalizing t with
  | nil => exact (List.append_nil t).symm
  | cons entry rest ih =>
    have hfresh : entry.1 ∉ keys t := by
      intro hmem
      rw [keys, List.map_append, List.nodup_append] at h
      exact h.2.2 entry.1 hmem entry.1 (by simp) rfl
    have hstored : put t entry.1 entry.2 = t ++ [entry] := put_of_not_mem entry.2 hfresh
    show putAll (put t entry.1 entry.2) rest = t ++ entry :: rest
    rw [hstored, ih (by simpa using h), List.append_assoc, List.singleton_append]

/-- Entries with different keys are a table as they are. -/
theorem ofList_of_nodup [DecidableEq κ] {entries : Table κ α} (h : (keys entries).Nodup) :
    ofList entries = entries :=
  putAll_of_nodup h

/-- The entries of a table with different keys are what look-ups find. -/
theorem mem_iff_get?_eq_some [DecidableEq κ] {t : Table κ α} (distinct : (keys t).Nodup) {key : κ}
    {value : α} : (key, value) ∈ t ↔ get? t key = some value := by
  induction t with
  | nil => simp
  | cons entry rest ih =>
    obtain ⟨k, v⟩ := entry
    obtain ⟨hfresh, hrest⟩ := List.nodup_cons.mp distinct
    by_cases hk : k = key
    · subst hk
      have habsent : (k, value) ∉ rest := fun hmem =>
        hfresh (List.mem_map.mpr ⟨(k, value), hmem, rfl⟩)
      simp [get?_cons, habsent, eq_comm]
    · simp [get?_cons, hk, Ne.symm hk, ih hrest]

/-- Tables in which look-ups find the same have the same entries. -/
theorem perm_of_get?_eq [DecidableEq κ] {t u : Table κ α} (ht : (keys t).Nodup)
    (hu : (keys u).Nodup) (h : ∀ key, get? t key = get? u key) : t.Perm u := by
  refine (List.perm_ext_iff_of_nodup (List.Nodup.of_map _ ht) (List.Nodup.of_map _ hu)).mpr ?_
  rintro ⟨key, value⟩
  rw [mem_iff_get?_eq_some ht, mem_iff_get?_eq_some hu, h]

/-! ## Storing over what has been stored -/

section PutAll

variable [DecidableEq κ]

theorem put_put_self (t : Table κ α) (key : κ) (v w : α) :
    put (put t key v) key w = put t key w := by
  induction t with
  | nil => simp [put_nil, put_cons]
  | cons entry rest ih =>
    obtain ⟨k, u⟩ := entry
    by_cases hk : k = key
    · simp [put_cons, hk]
    · simp [put_cons, hk, ih]

/-- A key that has its place keeps it, whatever is stored under another key in between. -/
theorem put_comm (t : Table κ α) {key other : κ} (v w : α) (hne : key ≠ other)
    (hhas : has t key = true) : put (put t other w) key v = put (put t key v) other w := by
  induction t with
  | nil => simp [has] at hhas
  | cons entry rest ih =>
    obtain ⟨k, u⟩ := entry
    by_cases hkey : k = key
    · have hother : k ≠ other := fun h => hne (hkey.symm.trans h)
      simp [put_cons, hkey, hne]
    · have hrest : has rest key = true := by simpa [has, get?_cons, hkey] using hhas
      by_cases hother : k = other
      · simp [put_cons, hother, Ne.symm hne]
      · simp [put_cons, hkey, hother, ih hrest]

/-- Under other keys than those that are stored a table keeps what it has. -/
theorem get?_putAll_of_not_mem {t : Table κ α} {entries : List (κ × α)} {key : κ}
    (hkey : key ∉ keys entries) : get? (putAll t entries) key = get? t key := by
  induction entries generalizing t with
  | nil => rfl
  | cons entry rest ih =>
    obtain ⟨k, v⟩ := entry
    obtain ⟨hne, hrest⟩ := not_or.mp fun h => hkey (List.mem_cons.mpr h)
    show get? (putAll (put t k v) rest) key = _
    rw [ih hrest, get?_put_of_ne _ _ (Ne.symm hne)]

/-- Among entries with different keys, what is stored over a table is found first. -/
theorem get?_putAll {t entries : Table κ α} (hdistinct : (keys entries).Nodup) (key : κ) :
    get? (putAll t entries) key = (get? entries key).or (get? t key) := by
  induction entries generalizing t with
  | nil => rfl
  | cons entry rest ih =>
    obtain ⟨k, v⟩ := entry
    obtain ⟨hfresh, hrest⟩ := List.nodup_cons.mp hdistinct
    show get? (putAll (put t k v) rest) key = _
    rw [ih hrest, get?_put]
    by_cases hk : k = key
    · -- Nothing is stored over it later.
      subst hk
      have hnone : get? rest k = none := by
        rw [← Option.not_isSome_iff_eq_none]
        exact fun hsome => hfresh ((has_iff_mem_keys rest k).mp hsome)
      simp [get?_cons, hnone]
    · simp [get?_cons, hk]

theorem put_putAll {t : Table κ α} {entries : List (κ × α)} {key : κ} (v : α)
    (hfresh : key ∉ keys entries) (hhas : has t key = true) :
    put (putAll t entries) key v = putAll (put t key v) entries := by
  induction entries generalizing t with
  | nil => rfl
  | cons entry rest ih =>
    obtain ⟨k, w⟩ := entry
    have hne : key ≠ k := fun h => hfresh (by simp [keys, h])
    have hrest : key ∉ keys rest := fun h => hfresh (List.mem_cons_of_mem k h)
    show put (putAll (put t k w) rest) key v = putAll (put (put t key v) k w) rest
    rw [ih hrest ((has_put_iff _ _ _ _).mpr (.inr hhas)), put_comm t v w hne hhas]

theorem putAll_put {t : Table κ α} {entries : List (κ × α)} (key : κ) (v : α)
    (hdistinct : (keys entries).Nodup) :
    putAll t (put entries key v) = put (putAll t entries) key v := by
  induction entries generalizing t with
  | nil => rfl
  | cons entry rest ih =>
    obtain ⟨k, w⟩ := entry
    obtain ⟨hfresh, hrest⟩ := List.nodup_cons.mp hdistinct
    by_cases hkey : k = key
    · -- The entry that is replaced is stored before the rest, which does not hold its key.
      subst hkey
      have hput : put ((k, w) :: rest) k v = (k, v) :: rest := by simp [put_cons]
      rw [hput]
      show putAll (put t k v) rest = put (putAll (put t k w) rest) k v
      rw [put_putAll v hfresh ((has_put_iff _ _ _ _).mpr (.inl rfl)), put_put_self]
    · have hput : put ((k, w) :: rest) key v = (k, w) :: put rest key v := by simp [put_cons, hkey]
      rw [hput]
      exact ih hrest

/-- What is stored over entries may be stored after them. -/
theorem putAll_putAll {t : Table κ α} {entries : List (κ × α)} (later : List (κ × α))
    (hdistinct : (keys entries).Nodup) :
    putAll t (putAll entries later) = putAll (putAll t entries) later := by
  induction later generalizing entries with
  | nil => rfl
  | cons entry rest ih =>
    obtain ⟨k, v⟩ := entry
    show putAll t (putAll (put entries k v) rest) = putAll (put (putAll t entries) k v) rest
    rw [ih (nodup_keys_put entries k v hdistinct), putAll_put k v hdistinct]

end PutAll

/-! ## Related tables -/

/-- Two tables have the same keys in the same order, and related values. -/
inductive Related (R : α → β → Prop) : Table κ α → Table κ β → Prop where
  | nil : Related R [] []
  | cons (key : κ) {v : α} {w : β} {t : Table κ α} {u : Table κ β} :
      R v w → Related R t u → Related R ((key, v) :: t) ((key, w) :: u)

namespace Related

variable {R : α → β → Prop} {t : Table κ α} {u : Table κ β}

theorem refl {R : α → α → Prop} (hR : ∀ v, R v v) (t : Table κ α) : Related R t t := by
  induction t with
  | nil => exact .nil
  | cons entry rest ih => exact .cons entry.1 (hR entry.2) ih

theorem keys_eq (h : Related R t u) : keys u = keys t := by
  induction h with
  | nil => rfl
  | cons key _ _ ih =>
    unfold keys at ih ⊢
    rw [List.map_cons, List.map_cons, ih]

/-- The values of related tables, without their keys. -/
theorem values (h : Related R t u) : List.Forall₂ R (t.map Prod.snd) (u.map Prod.snd) := by
  induction h with
  | nil => exact .nil
  | cons _ hvalue _ ih => exact .cons hvalue ih

/-- Related tables as lists of entries. -/
theorem entries (h : Related R t u) :
    List.Forall₂ (fun a b => b.1 = a.1 ∧ R a.2 b.2) t u := by
  induction h with
  | nil => exact .nil
  | cons _ hvalue _ ih => exact .cons ⟨rfl, hvalue⟩ ih

theorem map {S : γ → δ → Prop} {f : α → γ} {g : β → δ} (h : Related R t u)
    (hmap : ∀ v w, R v w → S (f v) (g w)) :
    Related S (t.map fun entry => (entry.1, f entry.2))
      (u.map fun entry => (entry.1, g entry.2)) := by
  induction h with
  | nil => exact .nil
  | cons key hvalue _ ih => exact .cons key (hmap _ _ hvalue) ih

theorem mono {S : α → β → Prop} (h : Related R t u) (hRS : ∀ v w, R v w → S v w) :
    Related S t u := by
  induction h with
  | nil => exact .nil
  | cons key hvalue _ ih => exact .cons key (hRS _ _ hvalue) ih

theorem append (h : Related R t u) {t' : Table κ α} {u' : Table κ β} (h' : Related R t' u') :
    Related R (t ++ t') (u ++ u') := by
  induction h with
  | nil => exact h'
  | cons key hvalue _ ih => exact .cons key hvalue ih

variable [DecidableEq κ]

/-- A key finds nothing in both tables, or related values. -/
theorem get? (h : Related R t u) (key : κ) :
    Option.Rel R (Table.get? t key) (Table.get? u key) := by
  induction h with
  | nil => exact .none
  | cons k hvalue _ ih =>
    rw [Table.get?_cons, Table.get?_cons]
    by_cases hk : k = key
    · rw [if_pos hk, if_pos hk]
      exact .some hvalue
    · rw [if_neg hk, if_neg hk]
      exact ih

theorem has_eq (h : Related R t u) (key : κ) : has u key = has t key := by
  have hget := h.get? key
  unfold has
  generalize Table.get? t key = found at hget
  generalize Table.get? u key = found' at hget
  cases hget <;> rfl

/-- Related values may be stored in both tables. -/
theorem put (h : Related R t u) (key : κ) {v : α} {w : β} (hnew : R v w) :
    Related R (Table.put t key v) (Table.put u key w) := by
  induction h with
  | nil => exact .cons key hnew .nil
  | cons k hvalue htail ih =>
    rw [Table.put_cons, Table.put_cons]
    by_cases hk : k = key
    · rw [if_pos hk, if_pos hk]
      exact .cons k hnew htail
    · rw [if_neg hk, if_neg hk]
      exact .cons k hvalue ih

theorem putAll (h : Related R t u) {entries : List (κ × α)} {entries' : List (κ × β)}
    (hentries : Related R entries entries') :
    Related R (Table.putAll t entries) (Table.putAll u entries') := by
  induction hentries generalizing t u with
  | nil => exact h
  | @cons key v w es es' hvalue _ ih =>
    show Related R (Table.putAll (Table.put t key v) es) (Table.putAll (Table.put u key w) es')
    exact ih (h.put key hvalue)

/-- A value may be replaced in the second table by another one that is related, too. -/
theorem put_right (h : Related R t u) {key : κ} {v : α} {w : β}
    (hkey : Table.get? t key = some v) (hnew : R v w) : Related R t (Table.put u key w) := by
  induction h with
  | nil => cases hkey
  | cons k hvalue htail ih =>
    rw [Table.put_cons]
    rw [Table.get?_cons] at hkey
    by_cases hk : k = key
    · rw [if_pos hk] at hkey ⊢
      cases hkey
      exact .cons k hnew htail
    · rw [if_neg hk] at hkey ⊢
      exact .cons k hvalue (ih hkey)

theorem putAll_right (h : Related R t u) {entries : List (κ × β)}
    (hentries : ∀ entry ∈ entries, ∃ v, Table.get? t entry.1 = some v ∧ R v entry.2) :
    Related R t (Table.putAll u entries) := by
  induction entries generalizing u with
  | nil => exact h
  | cons entry rest ih =>
    obtain ⟨v, hkey, hnew⟩ := hentries entry List.mem_cons_self
    exact ih (h.put_right hkey hnew) fun e he => hentries e (List.mem_cons_of_mem entry he)

theorem ofList {entries : List (κ × α)} {entries' : List (κ × β)}
    (hentries : Related R entries entries') :
    Related R (Table.ofList entries) (Table.ofList entries') :=
  putAll .nil hentries

end Related

/-- Sorting by keys moves the values of both tables alike. -/
theorem Related.sortKeys {R : α → β → Prop} {t : Table String α} {u : Table String β}
    (h : Related R t u) : Related R (Sorting.sortKeys t) (Sorting.sortKeys u) := by
  have hinsert : ∀ {t : Table String α} {u : Table String β} (key : String) {v : α} {w : β},
      Related R t u → R v w →
      Related R
        (Sorting.insertBy (fun a b => decide (a.1 ≤ b.1)) (key, v) t)
        (Sorting.insertBy (fun a b => decide (a.1 ≤ b.1)) (key, w) u) := by
    intro t u key v w htables hnew
    induction htables with
    | nil => exact .cons key hnew .nil
    | cons k hvalue htail ih =>
      by_cases hle : key ≤ k
      · simp only [Sorting.insertBy, hle, decide_true, if_true]
        exact .cons key hnew (.cons k hvalue htail)
      · simp only [Sorting.insertBy, hle, decide_false, Bool.false_eq_true, if_false]
        exact .cons k hvalue ih
  induction h with
  | nil => exact .nil
  | cons key hvalue _ ih => exact hinsert key ih hvalue

end Table

end Groundplan
