/-!
# Tables in insertion order

A table is a list of entries with different keys.  Storing a value under a key that the table
already has keeps the key's place.

## Main definitions

- `Table.get?`, `Table.has`: look-up
- `Table.put`: store one value
- `Table.putAll`, `Table.ofList`: store many values, later ones winning
- `Table.erase`: forget a key

## Main statements

- `Table.get?_put`: a look-up finds what was stored last under its key
- `Table.keys_put`: a new key comes last, and one that is there keeps its place
- `Table.nodup_keys_ofList`: the keys of a table are different
-/

namespace Groundplan

/-- Entries in the order in which their keys were first stored. -/
abbrev Table (κ α : Type) := List (κ × α)

namespace Table

variable {κ α : Type} [DecidableEq κ]

/-- The value stored under a key. -/
def get? : Table κ α → κ → Option α
  | [], _ => none
  | (k, v) :: rest, key => if k = key then some v else get? rest key

/-- Whether the table has a key. -/
def has (t : Table κ α) (key : κ) : Bool :=
  (get? t key).isSome

/-- Store a value under a key, in the key's place or else at the end. -/
def put : Table κ α → κ → α → Table κ α
  | [], key, value => [(key, value)]
  | (k, v) :: rest, key, value =>
    if k = key then (k, value) :: rest else (k, v) :: put rest key value

/-- Store entries one after another. -/
def putAll (t : Table κ α) (entries : List (κ × α)) : Table κ α :=
  entries.foldl (fun t entry => put t entry.1 entry.2) t

/-- The table of a list of entries; a repeated key keeps its first place and last value. -/
def ofList (entries : List (κ × α)) : Table κ α :=
  putAll [] entries

/-- The table without a key. -/
def erase (t : Table κ α) (key : κ) : Table κ α :=
  t.filter fun entry => entry.1 ≠ key

/-- The keys in insertion order. -/
def keys (t : Table κ α) : List κ :=
  t.map Prod.fst

/-! ## One entry in front -/

theorem get?_cons (k : κ) (v : α) (rest : Table κ α) (key : κ) :
    get? ((k, v) :: rest) key = if k = key then some v else get? rest key :=
  rfl

theorem put_nil (key : κ) (value : α) : put [] key value = [(key, value)] :=
  rfl

theorem put_cons (k : κ) (v : α) (rest : Table κ α) (key : κ) (value : α) :
    put ((k, v) :: rest) key value
      = if k = key then (k, value) :: rest else (k, v) :: put rest key value :=
  rfl

theorem erase_cons (k : κ) (v : α) (rest : Table κ α) (key : κ) :
    erase ((k, v) :: rest) key = if k = key then erase rest key else (k, v) :: erase rest key := by
  by_cases same : k = key <;> simp [erase, same]

omit [DecidableEq κ] in
theorem keys_nil : keys ([] : Table κ α) = [] :=
  rfl

omit [DecidableEq κ] in
theorem keys_cons (k : κ) (v : α) (rest : Table κ α) : keys ((k, v) :: rest) = k :: keys rest :=
  rfl

/-! ## Look-up -/

@[simp]
theorem get?_nil (key : κ) : get? ([] : Table κ α) key = none :=
  rfl

/-- A key that was just stored is found. -/
@[simp]
theorem get?_put_self (t : Table κ α) (key : κ) (value : α) :
    get? (put t key value) key = some value := by
  induction t with
  | nil => rw [put_nil, get?_cons, if_pos rfl]
  | cons entry rest ih =>
    obtain ⟨k, v⟩ := entry
    by_cases same : k = key
    · simp [put_cons, get?_cons, same]
    · simp [put_cons, get?_cons, same, ih]

/-- Storing under one key leaves all others as they are. -/
theorem get?_put_of_ne (t : Table κ α) {key other : κ} (value : α) (different : key ≠ other) :
    get? (put t key value) other = get? t other := by
  induction t with
  | nil => rw [put_nil, get?_cons, if_neg different]
  | cons entry rest ih =>
    obtain ⟨k, v⟩ := entry
    by_cases same : k = key
    · subst same
      simp [put_cons, get?_cons, different]
    · simp [put_cons, get?_cons, same, ih]

/-- A look-up finds what was stored last under its key. -/
theorem get?_put (t : Table κ α) (key other : κ) (value : α) :
    get? (put t key value) other = if key = other then some value else get? t other := by
  by_cases same : key = other
  · subst same
    simp
  · simp [same, get?_put_of_ne t value same]

/-- The keys of a table are those under which a look-up finds something. -/
theorem has_iff_mem_keys (t : Table κ α) (key : κ) : has t key = true ↔ key ∈ keys t := by
  rw [has]
  induction t with
  | nil => simp [keys_nil]
  | cons entry rest ih =>
    obtain ⟨k, v⟩ := entry
    rw [keys_cons, List.mem_cons, get?_cons]
    by_cases same : k = key
    · simp [same]
    · simpa [same, Ne.symm same] using ih

/-- A key that was erased is not found. -/
@[simp]
theorem get?_erase_self (t : Table κ α) (key : κ) : get? (erase t key) key = none := by
  induction t with
  | nil => rfl
  | cons entry rest ih =>
    obtain ⟨k, v⟩ := entry
    rw [erase_cons]
    by_cases same : k = key
    · rw [if_pos same, ih]
    · rw [if_neg same, get?_cons, if_neg same, ih]

/-- Erasing one key leaves all others as they are. -/
theorem get?_erase_of_ne (t : Table κ α) {key other : κ} (different : key ≠ other) :
    get? (erase t key) other = get? t other := by
  induction t with
  | nil => rfl
  | cons entry rest ih =>
    obtain ⟨k, v⟩ := entry
    rw [erase_cons, get?_cons]
    by_cases same : k = key
    · rw [if_pos same, ih, if_neg (same ▸ different)]
    · rw [if_neg same, get?_cons, ih]

/-- A table without a key that it had is shorter. -/
theorem length_erase_lt {t : Table κ α} {key : κ} {value : α} (found : get? t key = some value) :
    (erase t key).length < t.length := by
  induction t with
  | nil => cases found
  | cons entry rest ih =>
    obtain ⟨k, v⟩ := entry
    rw [erase_cons, List.length_cons]
    by_cases same : k = key
    · rw [if_pos same]
      exact Nat.lt_succ_of_le (List.length_filter_le _ rest)
    · rw [get?_cons, if_neg same] at found
      rw [if_neg same, List.length_cons]
      exact Nat.succ_lt_succ (ih found)

/-- A look-up in a table of changed values finds the changed value. -/
theorem get?_map {β : Type} (t : Table κ α) (f : α → β) (key : κ) :
    get? (t.map fun entry => (entry.1, f entry.2)) key = (get? t key).map f := by
  induction t with
  | nil => rfl
  | cons entry rest ih =>
    obtain ⟨k, v⟩ := entry
    rw [List.map_cons, get?_cons, get?_cons]
    by_cases same : k = key
    · rw [if_pos same, if_pos same, Option.map_some]
    · rw [if_neg same, if_neg same, ih]

/-! ## Keys -/

/-- A new key comes last, and one that is there keeps its place. -/
theorem keys_put (t : Table κ α) (key : κ) (value : α) :
    keys (put t key value) = if key ∈ keys t then keys t else keys t ++ [key] := by
  induction t with
  | nil => simp [put_nil, keys_cons, keys_nil]
  | cons entry rest ih =>
    obtain ⟨k, v⟩ := entry
    rw [put_cons]
    by_cases same : k = key
    · simp [keys_cons, same]
    · rw [if_neg same, keys_cons, keys_cons, ih]
      by_cases later : key ∈ keys rest
      · simp [later]
      · simp [later, Ne.symm same]

/-- Storing keeps the keys different. -/
theorem nodup_keys_put (t : Table κ α) (key : κ) (value : α) (distinct : (keys t).Nodup) :
    (keys (put t key value)).Nodup := by
  rw [keys_put]
  split
  · exact distinct
  · rename_i fresh
    refine List.nodup_append.mpr ⟨distinct, by simp, ?_⟩
    intro a old b new
    rw [List.mem_singleton.mp new]
    intro same
    exact fresh (same ▸ old)

/-- Storing many values keeps the keys different. -/
theorem nodup_keys_putAll (t : Table κ α) (entries : List (κ × α)) (distinct : (keys t).Nodup) :
    (keys (putAll t entries)).Nodup := by
  induction entries generalizing t with
  | nil => exact distinct
  | cons entry rest ih => exact ih (put t entry.1 entry.2) (nodup_keys_put t _ _ distinct)

/-- The keys of the table of a list of entries are different. -/
theorem nodup_keys_ofList (entries : List (κ × α)) :
    (keys (ofList entries)).Nodup :=
  nodup_keys_putAll [] entries List.nodup_nil

end Table

end Groundplan
