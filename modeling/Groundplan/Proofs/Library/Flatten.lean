import Groundplan.Proofs.Library.Call

/-!
# Flat Lists

A list is flattened to the elements that are reached from it through nested lists only, from left to
right.  Each of them has a path, the indices that lead to it, and the elements stand in the order of
their paths.  Sets, maps and objects are reached but not entered.

## Main Definitions

- `Library.Reaches`: what is reached through nested lists, and by which indices
- `Library.Enumerated`: a list of all that is reached, in the order of the paths

## Main Statements

- `Library.leavesOfAll_enumerated`: a flat list enumerates what is reached
- `Library.flatten_enumerates`: calls of the functions
-/

namespace Groundplan.Library

variable {v w u : Value} {vs ws items found : List Value} {path : List Nat}

/-! ## What is reached -/

/-- What is reached from a value through nested lists only: the value itself if it is no list, and
otherwise what is reached from its elements, whose indices make up the path. -/
inductive Reaches : Value → List Nat → Value → Prop where
  | leaf {v : Value} (h : v.kind ≠ .list) : Reaches v [] v
  | item {items : List Value} {i : Nat} {w v : Value} {path : List Nat}
      (hitem : items[i]? = some w) (hrest : Reaches w path v) : Reaches (.list items) (i :: path) v

theorem Reaches.kind_ne (h : Reaches v path u) : u.kind ≠ .list := by
  induction h with
  | leaf h => exact h
  | item _ _ ih => exact ih

theorem reaches_iff_of_kind_ne (h : v.kind ≠ .list) : Reaches v path u ↔ path = [] ∧ u = v := by
  constructor
  · intro hreach
    cases hreach with
    | leaf _ => exact ⟨rfl, rfl⟩
    | item _ _ => exact absurd rfl h
  · rintro ⟨rfl, rfl⟩
    exact .leaf h

/-- What is reached from some values by a path whose first index counts from `start`. -/
def ReachesFrom (start : Nat) (vs : List Value) (path : List Nat) (u : Value) : Prop :=
  ∃ i w rest, path = (start + i) :: rest ∧ vs[i]? = some w ∧ Reaches w rest u

theorem reaches_list_iff : Reaches (.list items) path u ↔ ReachesFrom 0 items path u := by
  constructor
  · intro hreach
    cases hreach with
    | leaf h => exact absurd rfl h
    | @item _ i w _ rest hitem hrest => exact ⟨i, w, rest, by rw [Nat.zero_add], hitem, hrest⟩
  · rintro ⟨i, w, rest, rfl, hitem, hrest⟩
    rw [Nat.zero_add]
    exact .item hitem hrest

theorem reachesFrom_cons_iff {start : Nat} :
    ReachesFrom start (v :: vs) path u ↔
      (∃ rest, path = start :: rest ∧ Reaches v rest u) ∨ ReachesFrom (start + 1) vs path u := by
  constructor
  · rintro ⟨i, w, rest, rfl, hitem, hrest⟩
    cases i with
    | zero =>
      cases hitem
      exact .inl ⟨rest, rfl, hrest⟩
    | succ i => exact .inr ⟨i, w, rest, by rw [Nat.add_assoc, Nat.add_comm 1], hitem, hrest⟩
  · rintro (⟨rest, rfl, hrest⟩ | ⟨i, w, rest, rfl, hitem, hrest⟩)
    · exact ⟨0, v, rest, rfl, rfl, hrest⟩
    · exact ⟨i + 1, w, rest, by rw [Nat.add_assoc, Nat.add_comm 1], hitem, hrest⟩

/-! ## Enumerations -/

/-- All that is reached, one for each path, in the lexicographic order of the paths. -/
def Enumerated (Reached : List Nat → Value → Prop) (found : List Value) : Prop :=
  ∃ places : List (List Nat × Value), found = places.map Prod.snd
    ∧ (places.map Prod.fst).Pairwise (List.Lex (· < ·))
    ∧ ∀ path u, (path, u) ∈ places ↔ Reached path u

theorem enumerated_leaf (h : v.kind ≠ .list) : Enumerated (Reaches v) [v] := by
  refine ⟨[([], v)], rfl, List.pairwise_singleton _ _, fun path u => ?_⟩
  rw [reaches_iff_of_kind_ne h, List.mem_singleton, Prod.mk.injEq]

theorem enumerated_nil (start : Nat) : Enumerated (ReachesFrom start []) [] := by
  refine ⟨[], rfl, .nil, fun path u => ⟨fun h => absurd h List.not_mem_nil, ?_⟩⟩
  rintro ⟨_, _, _, -, hitem, -⟩
  cases hitem

/-- What is reached from the first value comes before what is reached from the others. -/
theorem Enumerated.cons {start : Nat} (hv : Enumerated (Reaches v) found)
    (hvs : Enumerated (ReachesFrom (start + 1) vs) ws) :
    Enumerated (ReachesFrom start (v :: vs)) (found ++ ws) := by
  obtain ⟨places, rfl, hsorted, hplaces⟩ := hv
  obtain ⟨places', rfl, hsorted', hplaces'⟩ := hvs
  refine ⟨places.map (fun place => (start :: place.1, place.2)) ++ places', ?_, ?_, ?_⟩
  · simp [Function.comp_def]
  · rw [List.map_append, List.pairwise_append]
    refine ⟨?_, hsorted', ?_⟩
    · rw [List.map_map, List.pairwise_map]
      exact (List.pairwise_map.mp hsorted).imp fun h => .cons h
    · intro path hpath path' hpath'
      obtain ⟨_, hplace, rfl⟩ := List.mem_map.mp hpath
      obtain ⟨place, -, rfl⟩ := List.mem_map.mp hplace
      obtain ⟨⟨path', u⟩, hplace', rfl⟩ := List.mem_map.mp hpath'
      obtain ⟨i, _, rest, rfl, -, -⟩ := (hplaces' path' u).mp hplace'
      exact .rel (by omega)
  · intro path u
    rw [reachesFrom_cons_iff, List.mem_append, hplaces', List.mem_map]
    refine or_congr_left ⟨?_, ?_⟩
    · rintro ⟨⟨rest, u⟩, hplace, hpath⟩
      cases hpath
      exact ⟨rest, rfl, (hplaces rest u).mp hplace⟩
    · rintro ⟨rest, rfl, hrest⟩
      exact ⟨(rest, u), (hplaces rest u).mpr hrest, rfl⟩

mutual

/-- A value contributes what is reached from it. -/
theorem leaves_enumerated (v : Value) : Enumerated (Reaches v) (leaves v) := by
  match v with
  | .list items =>
    have hreaches : Reaches (.list items) = ReachesFrom 0 items := by
      funext path u
      exact propext reaches_list_iff
    rw [leaves, hreaches]
    exact leavesOfAll_enumerated 0 items
  | .null | .bool _ | .number _ | .string _ | .set _ | .map _ | .object _ | .unknown =>
    rw [leaves]
    exact enumerated_leaf fun h => by cases h

/-- A flat list enumerates what is reached from its values. -/
theorem leavesOfAll_enumerated (start : Nat) (vs : List Value) :
    Enumerated (ReachesFrom start vs) (leavesOfAll vs) := by
  match vs with
  | [] => exact enumerated_nil start
  | v :: vs => exact (leaves_enumerated v).cons (leavesOfAll_enumerated (start + 1) vs)

end

/-! ## Flat lists -/

theorem kind_ne_of_mem_leavesOfAll (h : v ∈ leavesOfAll vs) : v.kind ≠ .list := by
  obtain ⟨places, hfound, -, hplaces⟩ := leavesOfAll_enumerated 0 vs
  rw [hfound] at h
  obtain ⟨⟨path, v⟩, hplace, rfl⟩ := List.mem_map.mp h
  obtain ⟨_, _, _, -, -, hreach⟩ := (hplaces path v).mp hplace
  exact hreach.kind_ne

theorem leaves_of_kind_ne (h : v.kind ≠ .list) : leaves v = [v] := by
  cases v with
  | list => exact absurd rfl h
  | null | bool | number | string | set | map | object | unknown => rw [leaves]

/-- A list without lists is flat. -/
theorem leavesOfAll_of_kind_ne (h : ∀ v ∈ vs, v.kind ≠ .list) : leavesOfAll vs = vs := by
  induction vs with
  | nil => rfl
  | cons v vs ih =>
    obtain ⟨hv, hvs⟩ := List.forall_mem_cons.mp h
    rw [leavesOfAll, leaves_of_kind_ne hv, ih hvs, List.singleton_append]

theorem leavesOfAll_append (vs ws : List Value) :
    leavesOfAll (vs ++ ws) = leavesOfAll vs ++ leavesOfAll ws := by
  induction vs with
  | nil => rfl
  | cons v vs ih => rw [List.cons_append, leavesOfAll, leavesOfAll, ih, List.append_assoc]

theorem anyContainsUnknown_append (vs ws : List Value) :
    Value.anyContainsUnknown (vs ++ ws)
      = (Value.anyContainsUnknown vs || Value.anyContainsUnknown ws) := by
  induction vs with
  | nil => rfl
  | cons v vs ih =>
    rw [List.cons_append, Value.anyContainsUnknown, Value.anyContainsUnknown, ih, Bool.or_assoc]

mutual

theorem anyContainsUnknown_leaves (v : Value) :
    Value.anyContainsUnknown (leaves v) = v.containsUnknown := by
  match v with
  | .list items =>
    rw [leaves, Value.containsUnknown]
    exact anyContainsUnknown_leavesOfAll items
  | .null | .bool _ | .number _ | .string _ | .set _ | .map _ | .object _ | .unknown =>
    rw [leaves, Value.anyContainsUnknown, Value.anyContainsUnknown, Bool.or_false]

/-- Nothing unknown comes in or is lost. -/
theorem anyContainsUnknown_leavesOfAll (vs : List Value) :
    Value.anyContainsUnknown (leavesOfAll vs) = Value.anyContainsUnknown vs := by
  match vs with
  | [] => rfl
  | v :: vs =>
    rw [leavesOfAll, anyContainsUnknown_append, anyContainsUnknown_leaves v,
      anyContainsUnknown_leavesOfAll vs, Value.anyContainsUnknown]

end

/-! ## Calls -/

theorem call_flatten (hitems : v.items? = some items) (hknown : v.containsUnknown = false)
    (span : Option Span) : standard.call "flatten" [v] span = .ok (.list (leavesOfAll items)) := by
  have hunknown : Value.anyContainsUnknown [v] = false := by
    rw [Value.anyContainsUnknown, hknown]
    rfl
  cases v with
  | list | set =>
    cases hitems
    exact (call_eq_ok_iff "flatten" [_] rfl rfl hunknown).mpr rfl
  | null | bool | number | string | map | object | unknown => cases hitems

theorem call_concat (vs ws : List Value) (span : Option Span) :
    standard.call "concat" [.list vs, .list ws] span = .ok (.list (vs ++ ws)) := by
  refine (call_eq_ok_iff "concat" [.list vs, .list ws] rfl rfl rfl).mpr ?_
  show Except.ok (concat _) = _
  simp [concat, Value.items?]

/-- Without anything unknown, flattening a list or set gives what is reached through nested lists, in
order; nothing of it is a list, so it is flat, and the elements of joined lists are joined. -/
theorem flatten_enumerates :
    (∀ v items, v.items? = some items → v.containsUnknown = false → ∀ span, ∃ found,
      standard.call "flatten" [v] span = .ok (.list found)
        ∧ (∀ u ∈ found, u.kind ≠ .list)
        ∧ Enumerated (Reaches (.list items)) found
        ∧ standard.call "flatten" [.list found] span = .ok (.list found))
      ∧ ∀ vs ws, (Value.list vs).containsUnknown = false → (Value.list ws).containsUnknown = false →
        ∀ span, ∃ fv fw joined, standard.call "flatten" [.list vs] span = .ok fv
          ∧ standard.call "flatten" [.list ws] span = .ok fw
          ∧ (standard.call "concat" [.list vs, .list ws] span >>= fun both =>
            standard.call "flatten" [both] span) = .ok joined
          ∧ standard.call "concat" [fv, fw] span = .ok joined := by
  constructor
  · intro v items hitems hknown span
    have hflat : ∀ u ∈ leavesOfAll items, u.kind ≠ .list := fun u => kind_ne_of_mem_leavesOfAll
    refine ⟨leavesOfAll items, call_flatten hitems hknown span, hflat, ?enumerated, ?again⟩
    case enumerated =>
      have henumerated := leaves_enumerated (.list items)
      rwa [leaves] at henumerated
    case again =>
      have hitemsKnown : Value.anyContainsUnknown items = false := by
        cases v with
        | list | set =>
          cases hitems
          rwa [Value.containsUnknown] at hknown
        | null | bool | number | string | map | object | unknown => cases hitems
      have hfound : (Value.list (leavesOfAll items)).containsUnknown = false := by
        rw [Value.containsUnknown, anyContainsUnknown_leavesOfAll, hitemsKnown]
      rw [call_flatten rfl hfound, leavesOfAll_of_kind_ne hflat]
  · intro vs ws hvs hws span
    refine ⟨_, _, .list (leavesOfAll vs ++ leavesOfAll ws), call_flatten rfl hvs span,
      call_flatten rfl hws span, ?_, call_concat _ _ span⟩
    have hboth : (Value.list (vs ++ ws)).containsUnknown = false := by
      rw [Value.containsUnknown] at hvs hws ⊢
      rw [anyContainsUnknown_append, hvs, hws]
      rfl
    rw [call_concat]
    exact (call_flatten rfl hboth span).trans (by rw [leavesOfAll_append])

/-- Lists are entered at any depth, sets are not, and empty lists leave nothing. -/
theorem flatten_enumerates_nested :
    let one := Value.ofNat 1
    let pair : Value := .set [.list [one], .list [one, one]]
    let items := [.list [.list [one], pair], .list [], .string "a"]
    let found := [one, pair, .string "a"]
    (Value.list items).items? = some items ∧ (Value.list items).containsUnknown = false
      ∧ standard.call "flatten" [.list items] none = .ok (.list found)
      ∧ Enumerated (Reaches (.list items)) found
      ∧ (standard.call "concat" [.list items, .list items] none >>= fun both =>
          standard.call "flatten" [both] none)
        = standard.call "concat" [.list found, .list found] none := by
  intro one pair items found
  obtain ⟨found', hcall, -, henumerated, -⟩ :=
    flatten_enumerates.1 (.list items) items rfl rfl none
  have hfound : standard.call "flatten" [.list items] none = .ok (.list found) :=
    call_flatten (v := .list items) rfl rfl none
  obtain rfl := Value.list.inj (Except.ok.inj (hcall.symm.trans hfound))
  obtain ⟨_, _, joined, hfirst, hsecond, hleft, hright⟩ :=
    flatten_enumerates.2 items items rfl rfl none
  obtain rfl := Except.ok.inj (hfound.symm.trans hfirst)
  obtain rfl := Except.ok.inj (hfound.symm.trans hsecond)
  exact ⟨rfl, rfl, hfound, henumerated, hleft.trans hright.symm⟩

end Groundplan.Library
