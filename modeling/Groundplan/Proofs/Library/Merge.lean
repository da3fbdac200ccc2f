import Groundplan.Proofs.Library.Call
import Groundplan.Proofs.Table

/-!
# Merged Maps and Objects

The fields of a merge are those of its arguments, stored one over the other, so each key has the
value of the last argument that has it.  Tables may be stored over each other in any grouping, and a
merge is a map exactly if all that is given are maps; so merges may be merged again, as long as no
group of arguments is only null, whose merge would be an object.

## Main Definitions

- `Library.overlay`: fields stored over a table

## Main Statements

- `Library.merge_groups`: a merge of merges
- `Library.get?_overlay`: what is stored last is found
- `Library.merge_grouped`: calls of the function
-/

namespace Groundplan.Library

variable {args group : List Value} {groups : List (List Value)} {arg v : Value}
  {t u : Table String Value} {key : String}

/-! ## Fields stored over each other -/

/-- A table with the fields of some values stored over it, one value after the other. -/
def overlay (t : Table String Value) (args : List Value) : Table String Value :=
  args.foldl (fun fields arg => Table.putAll fields (arg.fields?.getD [])) t

theorem fields?_of_isNull (h : arg.isNull = true) : arg.fields? = none := by
  cases arg <;> first | rfl | cases h

/-- Null has no fields to store. -/
theorem overlay_filter (t : Table String Value) (args : List Value) :
    overlay t (args.filter fun arg => !arg.isNull) = overlay t args := by
  induction args generalizing t with
  | nil => rfl
  | cons arg args ih =>
    cases hnull : arg.isNull with
    | true =>
      have hstored : overlay t (arg :: args) = overlay t args := by
        rw [overlay, List.foldl_cons, fields?_of_isNull hnull]
        rfl
      rw [List.filter_cons_of_neg (by simp [hnull]), ih, hstored]
    | false =>
      rw [List.filter_cons_of_pos (by simp [hnull])]
      exact ih _

/-- What is stored over a table may be gathered first. -/
theorem putAll_overlay (hu : (Table.keys u).Nodup) (args : List Value) :
    Table.putAll t (overlay u args) = overlay (Table.putAll t u) args := by
  induction args generalizing u with
  | nil => rfl
  | cons arg args ih =>
    show Table.putAll t (overlay (Table.putAll u (arg.fields?.getD [])) args) =
      overlay (Table.putAll (Table.putAll t u) (arg.fields?.getD [])) args
    rw [ih (Table.nodup_keys_putAll u _ hu), Table.putAll_putAll _ hu]

/-- A key has the value of the last argument that has it. -/
theorem get?_overlay (h : ∀ arg ∈ args, (Table.keys (arg.fields?.getD [])).Nodup) :
    Table.get? (overlay t args) key =
      (args.reverse.findSome? fun arg => Table.get? (arg.fields?.getD []) key).or
        (Table.get? t key) := by
  induction args generalizing t with
  | nil => rfl
  | cons arg args ih =>
    obtain ⟨harg, hargs⟩ := List.forall_mem_cons.mp h
    show Table.get? (overlay (Table.putAll t (arg.fields?.getD [])) args) key = _
    rw [ih hargs, Table.get?_putAll harg, List.reverse_cons, List.findSome?_append,
      List.findSome?_singleton, Option.or_assoc]

/-! ## Merges -/

/-- Something is given, and all that is given are maps. -/
def AllMaps (args : List Value) : Prop :=
  (∃ arg ∈ args, arg.isNull = false) ∧ ∀ arg ∈ args, arg.isNull = false → arg.kind = .map

/-- A merge is a map exactly if all that is given are maps. -/
theorem merge_cases (args : List Value) :
    (AllMaps args ∧ merge args = .map (overlay [] args))
      ∨ (¬ AllMaps args ∧ merge args = .object (overlay [] args)) := by
  have hjudged : (!(args.filter fun arg => !arg.isNull).isEmpty
      && (args.filter fun arg => !arg.isNull).all (·.kind == .map)) = true ↔ AllMaps args := by
    rw [Bool.and_eq_true]
    refine and_congr (by simp) ?_
    simp [or_iff_not_imp_left]
  unfold merge
  dsimp only
  rw [← overlay_filter]
  split
  · next hmaps => exact .inl ⟨hjudged.mp hmaps, rfl⟩
  · next hmaps => exact .inr ⟨mt hjudged.mpr hmaps, rfl⟩

/-- Merges have fields, and are not null. -/
theorem fields?_merge (args : List Value) : (merge args).fields? = some (overlay [] args) := by
  rcases merge_cases args with ⟨-, hmerge⟩ | ⟨-, hmerge⟩ <;> rw [hmerge] <;> rfl

theorem isNull_merge (args : List Value) : (merge args).isNull = false := by
  rcases merge_cases args with ⟨-, hmerge⟩ | ⟨-, hmerge⟩ <;> rw [hmerge] <;> rfl

theorem kind_merge_iff (args : List Value) : (merge args).kind = .map ↔ AllMaps args := by
  rcases merge_cases args with ⟨hmaps, hmerge⟩ | ⟨hmaps, hmerge⟩
  · simp [hmerge, hmaps, Value.kind]
  · simp [hmerge, hmaps, Value.kind]

section Groups

variable (hgroups : ∀ group ∈ groups, ∃ arg ∈ group, arg.isNull = false)

/-- The fields of merges are stored over each other like those of their arguments. -/
theorem overlay_map_merge (t : Table String Value) (groups : List (List Value)) :
    overlay t (groups.map merge) = overlay t groups.flatten := by
  induction groups generalizing t with
  | nil => rfl
  | cons group groups ih =>
    have hgroup : Table.putAll t ((merge group).fields?.getD []) = overlay t group := by
      rw [fields?_merge, Option.getD_some]
      exact putAll_overlay (u := []) List.nodup_nil group
    calc overlay t ((group :: groups).map merge)
        = overlay (Table.putAll t ((merge group).fields?.getD [])) (groups.map merge) := rfl
      _ = overlay (overlay t group) groups.flatten := by rw [hgroup, ih]
      _ = overlay t (group :: groups).flatten := by
        rw [List.flatten_cons, overlay, overlay, overlay, List.foldl_append]

include hgroups

theorem allMaps_map_merge_iff : AllMaps (groups.map merge) ↔ AllMaps groups.flatten := by
  -- Every group has something that is given, as its merge is.
  have hgiven : (∃ v ∈ groups.map merge, v.isNull = false)
      ↔ ∃ arg ∈ groups.flatten, arg.isNull = false := by
    constructor
    · rintro ⟨v, hv, -⟩
      obtain ⟨group, hgroup, rfl⟩ := List.mem_map.mp hv
      obtain ⟨arg, harg, hnull⟩ := hgroups group hgroup
      exact ⟨arg, List.mem_flatten.mpr ⟨group, hgroup, harg⟩, hnull⟩
    · rintro ⟨arg, harg, -⟩
      obtain ⟨group, hgroup, -⟩ := List.mem_flatten.mp harg
      exact ⟨merge group, List.mem_map_of_mem hgroup, isNull_merge group⟩
  refine and_congr hgiven ⟨fun h arg harg => ?_, fun h v hv _ => ?_⟩
  · obtain ⟨group, hgroup, hmem⟩ := List.mem_flatten.mp harg
    have hkind := h (merge group) (List.mem_map_of_mem hgroup) (isNull_merge group)
    exact ((kind_merge_iff group).mp hkind).2 arg hmem
  · obtain ⟨group, hgroup, rfl⟩ := List.mem_map.mp hv
    refine (kind_merge_iff group).mpr ⟨hgroups group hgroup, fun arg hmem => ?_⟩
    exact h arg (List.mem_flatten.mpr ⟨group, hgroup, hmem⟩)

/-- Merging the merges of groups is merging all arguments. -/
theorem merge_groups : merge (groups.map merge) = merge groups.flatten := by
  have hmaps := allMaps_map_merge_iff hgroups
  have hfields := overlay_map_merge [] groups
  rcases merge_cases (groups.map merge) with ⟨h, hmerge⟩ | ⟨h, hmerge⟩ <;>
    rcases merge_cases groups.flatten with ⟨h', hmerge'⟩ | ⟨h', hmerge'⟩
  · rw [hmerge, hmerge', hfields]
  · exact absurd (hmaps.mp h) h'
  · exact absurd (hmaps.mpr h') h
  · rw [hmerge, hmerge', hfields]

end Groups

/-! ## Calls -/

/-- The signature of the function that merges. -/
def mergeSignature : Signature :=
  ⟨"merge", [], some (Param.of "maps" keyedKinds).orNull, 0, .shallow⟩

theorem call_merge (hkinds : ∀ arg ∈ args, arg.kind ∈ [Kind.map, .object, .null])
    (span : Option Span) : standard.call "merge" args span = .ok (merge args) := by
  have hchecked : mergeSignature.problem? args = none := by
    rw [Signature.problem?, if_pos (by rfl)]
    refine Signature.argumentsProblem?_variadic (Nat.zero_le _) rfl fun arg harg place => ?_
    have hkind := hkinds arg harg
    cases arg with
    | map | object | null => rfl
    | bool | number | string | list | set | unknown => simp [Value.kind] at hkind
  have hknown : mergeSignature.isUnknownCall args = false := by
    simp only [Signature.isUnknownCall, mergeSignature, List.any_eq_false]
    intro arg harg hunknown
    have hkind := hkinds arg harg
    cases arg with
    | unknown => simp [Value.kind] at hkind
    | null | bool | number | string | list | set | map | object => cases hunknown
  exact (call_eq_ok_iff "merge" args rfl hchecked hknown).mpr rfl

/-- Maps, objects and nulls may be merged in consecutive groups that are not only null, and the merges
merged again: kind, fields and order are those of one merge of all, in which each key has the value
of the last argument that has it. -/
theorem merge_grouped (hkinds : ∀ arg ∈ groups.flatten, arg.kind ∈ [Kind.map, .object, .null])
    (hkeys : ∀ arg ∈ groups.flatten, (Table.keys (arg.fields?.getD [])).Nodup)
    (hgroups : ∀ group ∈ groups, ∃ arg ∈ group, arg.isNull = false) (span : Option Span) :
    ∃ merged fields, merged.fields? = some fields
      ∧ standard.call "merge" groups.flatten span = .ok merged
      ∧ (groups.mapM (fun group => standard.call "merge" group span) >>= fun merges =>
          standard.call "merge" merges span) = .ok merged
      ∧ ∀ key, Table.get? fields key =
          groups.flatten.reverse.findSome? fun arg => Table.get? (arg.fields?.getD []) key := by
  refine ⟨merge groups.flatten, overlay [] groups.flatten, fields?_merge _, call_merge hkinds span,
    ?grouped, fun key => ?last⟩
  case grouped =>
    have hmerges : groups.mapM (fun group => standard.call "merge" group span)
        = .ok (groups.map merge) :=
      mapM_eq_ok fun group hgroup =>
        call_merge (fun arg harg => hkinds arg (List.mem_flatten.mpr ⟨group, hgroup, harg⟩)) span
    have hmergesKinds : ∀ v ∈ groups.map merge, v.kind ∈ [Kind.map, .object, .null] := by
      intro v hv
      obtain ⟨group, -, rfl⟩ := List.mem_map.mp hv
      rcases merge_cases group with ⟨-, hmerge⟩ | ⟨-, hmerge⟩ <;> simp [hmerge, Value.kind]
    rw [hmerges, ← merge_groups hgroups]
    exact call_merge hmergesKinds span
  case last => rw [get?_overlay hkeys, Table.get?_nil, Option.or_none]

/-- Two groups, of which the first alone would be a map. -/
theorem merge_grouped_object :
    let groups : List (List Value) :=
      [[.map [("a", .bool true), ("b", .null)], .null],
        [.object [("b", .string "later"), ("c", .unknown)], .map [("a", .bool false)]]]
    let merged : Value := .object [("a", .bool false), ("b", .string "later"), ("c", .unknown)]
    (∀ arg ∈ groups.flatten, arg.kind ∈ [Kind.map, .object, .null])
      ∧ (∀ arg ∈ groups.flatten, (Table.keys (arg.fields?.getD [])).Nodup)
      ∧ (∀ group ∈ groups, ∃ arg ∈ group, arg.isNull = false)
      ∧ standard.call "merge" groups.flatten none = .ok merged
      ∧ (groups.mapM (fun group => standard.call "merge" group none) >>= fun merges =>
          standard.call "merge" merges none) = .ok merged := by
  intro groups merged
  have hkinds : ∀ arg ∈ groups.flatten, arg.kind ∈ [Kind.map, .object, .null] := by
    simp [groups, Value.kind]
  have hkeys : ∀ arg ∈ groups.flatten, (Table.keys (arg.fields?.getD [])).Nodup := by
    simp [groups, Value.fields?, Table.keys]
  have hgroups : ∀ group ∈ groups, ∃ arg ∈ group, arg.isNull = false := by
    simp [groups, Value.isNull]
  obtain ⟨merged', _, -, hflat, hgrouped, -⟩ := merge_grouped hkinds hkeys hgroups none
  have hmerged : standard.call "merge" groups.flatten none = .ok merged := by
    rw [call_merge hkinds]
    rfl
  obtain rfl := Except.ok.inj (hmerged.symm.trans hflat)
  exact ⟨hkinds, hkeys, hgroups, hflat, hgrouped⟩

end Groundplan.Library
