import Groundplan.Network.Address
import Groundplan.Proofs.Text.Characters
import Groundplan.Proofs.Text.Search
import Mathlib.Algebra.Group.Nat.Defs
import Mathlib.Data.List.Induction
import Mathlib.Data.List.Sort
import Mathlib.Tactic.SplitIfs

/-!
# Addresses Are Read Back

Every address is read back from its text.  For IPv6 the two colons of a gap stand for as many zeros
as are missing to eight groups, so a gap may replace any run of zeros; that the longest run is
chosen matters to the text only.

## Main Definitions

- `Network.partsOf`: what stands between the colons of an IPv6 address

## Main Statements

- `Network.ofDigits_toDigits`, `Network.ofDigits_lt`: digits of a fixed count and their number
- `Network.readAddress?_lt`: what is read is an address of the family
- `Network.readAddress?_addressText`: an address is read back
- `Network.addressText_inj`: different addresses have different texts
-/

namespace Groundplan.Network

/-! ## Digits -/

section Digits

variable {base : Nat}

theorem ofDigits_append_singleton (digits : List Nat) (d : Nat) :
    ofDigits base (digits ++ [d]) = ofDigits base digits * base + d := by
  rw [ofDigits, List.foldl_append]
  rfl

theorem length_toDigits (count n : Nat) : (toDigits base count n).length = count := by
  induction count generalizing n with
  | zero => rfl
  | succ count ih => rw [toDigits, List.length_append, ih, List.length_singleton]

theorem lt_of_mem_toDigits (hbase : 0 < base) {count n d : Nat} (h : d ∈ toDigits base count n) :
    d < base := by
  induction count generalizing n with
  | zero => cases h
  | succ count ih =>
    rcases List.mem_append.mp h with hlead | hlast
    · exact ih hlead
    · rw [List.mem_singleton.mp hlast]
      exact Nat.mod_lt n hbase

/-- The digits hold the number up to their count. -/
theorem ofDigits_toDigits (count n : Nat) :
    ofDigits base (toDigits base count n) = n % base ^ count := by
  induction count generalizing n with
  | zero => rw [Nat.pow_zero, Nat.mod_one, toDigits, ofDigits, List.foldl_nil]
  | succ count ih =>
    rw [toDigits, ofDigits_append_singleton, ih, Nat.pow_succ', Nat.mod_mul, Nat.mul_comm,
      Nat.add_comm]

theorem ofDigits_lt {digits : List Nat} (h : ∀ d ∈ digits, d < base) :
    ofDigits base digits < base ^ digits.length := by
  induction digits using List.reverseRecOn with
  | nil => exact Nat.one_pos
  | append_singleton digits d ih =>
    obtain ⟨hdigits, hd⟩ := List.forall_mem_append.mp h
    rw [List.forall_mem_singleton] at hd
    rw [ofDigits_append_singleton, List.length_append, List.length_singleton, Nat.pow_succ]
    calc ofDigits base digits * base + d < (ofDigits base digits + 1) * base := by
          rw [Nat.succ_mul]
          exact Nat.add_lt_add_left hd _
      _ ≤ base ^ digits.length * base := Nat.mul_le_mul_right base (ih hdigits)

end Digits

/-! ## Reading every part -/

section Parts

variable {α β : Type} {read : α → Option β}

theorem mapM_map_eq_some {write : β → α} {bs : List β} (h : ∀ b ∈ bs, read (write b) = some b) :
    (bs.map write).mapM read = some bs := by
  induction bs with
  | nil => rfl
  | cons b bs ih =>
    obtain ⟨hb, hbs⟩ := List.forall_mem_cons.mp h
    rw [List.map_cons, List.mapM_cons, hb, ih hbs]
    rfl

theorem forall_of_mapM_eq_some {p : β → Prop} (h : ∀ a b, read a = some b → p b) {as : List α}
    {bs : List β} (hread : as.mapM read = some bs) : ∀ b ∈ bs, p b := by
  induction as generalizing bs with
  | nil =>
    cases hread
    exact List.forall_mem_nil p
  | cons a as ih =>
    rw [List.mapM_cons] at hread
    obtain ⟨b, hb, hread⟩ := Option.bind_eq_some_iff.mp hread
    obtain ⟨rest, hrest, hread⟩ := Option.bind_eq_some_iff.mp hread
    cases hread
    exact List.forall_mem_cons.mpr ⟨h a b hb, ih hrest⟩

theorem length_of_mapM_eq_some {as : List α} {bs : List β} (hread : as.mapM read = some bs) :
    bs.length = as.length := by
  induction as generalizing bs with
  | nil =>
    cases hread
    rfl
  | cons a as ih =>
    rw [List.mapM_cons] at hread
    obtain ⟨b, _, hread⟩ := Option.bind_eq_some_iff.mp hread
    obtain ⟨rest, hrest, hread⟩ := Option.bind_eq_some_iff.mp hread
    cases hread
    exact congrArg (· + 1) (ih hrest)

end Parts

/-! ## IPv4 -/

theorem readOctet?_lt {text : String} {n : Nat} (h : readOctet? text = some n) : n < 256 := by
  unfold readOctet? at h
  dsimp only at h
  split_ifs at h
  cases h
  omega

theorem readOctet?_toString {n : Nat} (h : n < 256) : readOctet? (toString n) = some n := by
  have hdigits : ∀ c ∈ Nat.toDigits 10 n, c.isDigit = true :=
    fun c hc => Nat.isDigit_of_mem_toDigits (by decide) (by decide) hc
  have hvalue : Text.natOfDigits (Nat.toDigits 10 n) = n := by
    rw [Text.natOfDigits_eq hdigits, Nat.ofDigitChars_ten_toDigits]
  have hwritten : ∀ n < 256, ((Nat.toDigits 10 n).isEmpty = false ∧ (Nat.toDigits 10 n).length ≤ 3)
      ∧ (Nat.toDigits 10 n = ['0'] ∨ (Nat.toDigits 10 n).head? ≠ some '0') := by
    decide +kernel
  obtain ⟨⟨hsome, hlength⟩, hzeros⟩ := hwritten n h
  simp [readOctet?, hvalue, List.all_eq_true.mpr hdigits, hsome, hlength, hzeros,
    Nat.le_of_lt_succ h]

theorem readV4?_lt {text : String} {address : Nat} (h : readV4? text = some address) :
    address < 2 ^ 32 := by
  obtain ⟨octets, hoctets, h⟩ := Option.bind_eq_some_iff.mp h
  split_ifs at h with hlength
  cases h
  have hlt := ofDigits_lt (forall_of_mapM_eq_some (fun _ _ => readOctet?_lt) hoctets)
  rwa [hlength] at hlt

/-- A number is written in digits. -/
theorem not_mem_toString {c : Char} (hc : c.isDigit = false) (n : Nat) :
    c ∉ (toString n).toList := by
  intro hmem
  rw [Nat.toString_eq_repr, Nat.toList_repr] at hmem
  rw [Nat.isDigit_of_mem_toDigits (by decide) (by decide) hmem] at hc
  cases hc

theorem readV4?_addressText {address : Nat} (h : address < 2 ^ 32) :
    readV4? (addressText .v4 address) = some address := by
  have hsplit : Text.splitOn "." (addressText .v4 address) =
      (toDigits 256 4 address).map toString := by
    refine Text.splitOn_intercalate rfl ?_ ?_
    · exact List.ne_nil_of_length_pos (by rw [List.length_map, length_toDigits]; decide)
    · rw [List.forall_mem_map]
      exact fun n _ => not_mem_toString rfl n
  have hoctets : ((toDigits 256 4 address).map toString).mapM readOctet? =
      some (toDigits 256 4 address) :=
    mapM_map_eq_some fun n hn => readOctet?_toString (lt_of_mem_toDigits (by decide) hn)
  rw [readV4?, hsplit, hoctets, Option.bind_eq_bind, Option.bind_some, length_toDigits, if_pos rfl,
    ofDigits_toDigits]
  exact congrArg some (Nat.mod_eq_of_lt h)

/-- An IPv4 address has points in it. -/
theorem readV4?_of_not_mem {text : String} (h : '.' ∉ text.toList) : readV4? text = none := by
  rw [readV4?, Text.splitOn_of_not_mem rfl h]
  cases hread : [text].mapM readOctet? with
  | none => rfl
  | some octets =>
    have hlength : octets.length = 1 := length_of_mapM_eq_some hread
    simp [hlength]

/-! ## Groups of IPv6 -/

/-- A group in hexadecimal digits. -/
def groupText (group : Nat) : String :=
  String.ofList (Nat.toDigits 16 group)

/-- The digits of groups. -/
def hexDigits : List Char :=
  (List.range 16).map Nat.digitChar

theorem digitChar_mem_hexDigits {d : Nat} (h : d < 16) : Nat.digitChar d ∈ hexDigits :=
  List.mem_map_of_mem (List.mem_range.mpr h)

/-- The digits of a number follow those of its sixteenth. -/
theorem toDigits_sixteen {p : Nat → List Char → Prop} (hlast : ∀ d < 16, p d [Nat.digitChar d])
    (hmore : ∀ n cs, p (n / 16) cs → p n (cs ++ [Nat.digitChar (n % 16)])) (n : Nat) :
    p n (Nat.toDigits 16 n) := by
  induction n using Nat.strongRecOn with
  | ind n ih =>
    by_cases hn : n < 16
    · rw [Nat.toDigits_of_lt_base hn]
      exact hlast n hn
    · rw [Nat.toDigits_of_base_le (by decide) (Nat.le_of_not_lt hn)]
      exact hmore n _ (ih (n / 16) (by omega))

theorem mem_groupText {group : Nat} {c : Char} (h : c ∈ (groupText group).toList) :
    c ∈ hexDigits := by
  have hall : ∀ c ∈ Nat.toDigits 16 group, c ∈ hexDigits := by
    refine toDigits_sixteen (p := fun _ cs => ∀ c ∈ cs, c ∈ hexDigits) ?_ ?_ group
    · intro d hd
      exact List.forall_mem_singleton.mpr (digitChar_mem_hexDigits hd)
    · intro n cs hcs
      refine List.forall_mem_append.mpr ⟨hcs, List.forall_mem_singleton.mpr ?_⟩
      exact digitChar_mem_hexDigits (Nat.mod_lt n (by decide))
  rw [groupText, String.toList_ofList] at h
  exact hall c h

theorem groupText_ne_empty (group : Nat) : groupText group ≠ "" := by
  intro h
  have hnil := congrArg String.toList h
  rw [groupText, String.toList_ofList] at hnil
  exact Nat.toDigits_ne_nil hnil

theorem hexDigit?_digitChar {d : Nat} (h : d < 16) : hexDigit? (Nat.digitChar d) = some d := by
  have hall : ∀ d < 16, hexDigit? (Nat.digitChar d) = some d := by decide
  exact hall d h

theorem hexDigit?_lt {c : Char} {d : Nat} (h : hexDigit? c = some d) : d < 16 := by
  have hle : ∀ a b : Char, a ≤ b ↔ a.toNat ≤ b.toNat := fun a b => UInt32.le_iff_toNat_le
  have hcodes : '0'.toNat = 48 ∧ '9'.toNat = 57 ∧ 'a'.toNat = 97 ∧ 'f'.toNat = 102
      ∧ 'A'.toNat = 65 ∧ 'F'.toNat = 70 := by decide
  simp only [hexDigit?, Char.isDigit_iff_toNat, Bool.and_eq_true, decide_eq_true_eq, hle] at h
  split_ifs at h
  all_goals
    cases h
    omega

/-- The digits of a number are read as the number. -/
theorem exists_mapM_hexDigit? (n : Nat) :
    ∃ digits, (Nat.toDigits 16 n).mapM hexDigit? = some digits ∧ ofDigits 16 digits = n := by
  refine toDigits_sixteen
    (p := fun n cs => ∃ digits, cs.mapM hexDigit? = some digits ∧ ofDigits 16 digits = n) ?_ ?_ n
  · intro d hd
    refine ⟨[d], ?_, Nat.zero_add d⟩
    rw [List.mapM_cons, hexDigit?_digitChar hd]
    rfl
  · rintro n cs ⟨digits, hdigits, hvalue⟩
    refine ⟨digits ++ [n % 16], ?_, ?_⟩
    · rw [List.mapM_append, hdigits, List.mapM_cons,
        hexDigit?_digitChar (Nat.mod_lt n (by decide))]
      rfl
    · rw [ofDigits_append_singleton, hvalue]
      exact Nat.div_add_mod' n 16

theorem readGroup?_groupText {group : Nat} (h : group < 65536) :
    readGroup? (groupText group) = some group := by
  obtain ⟨digits, hdigits, hvalue⟩ := exists_mapM_hexDigit? group
  have hlength : digits.length = (Nat.toDigits 16 group).length := length_of_mapM_eq_some hdigits
  have hshort : (Nat.toDigits 16 group).length ≤ 4 :=
    (Nat.length_toDigits_le_iff (by decide) (by decide)).mpr h
  have hlong : 0 < (Nat.toDigits 16 group).length := List.length_pos_iff.mpr Nat.toDigits_ne_nil
  have hcount : (1 ≤ digits.length && digits.length ≤ 4) = true := by
    simp only [Bool.and_eq_true, decide_eq_true_eq]
    omega
  rw [readGroup?, groupText, String.toList_ofList, hdigits, Option.bind_eq_bind, Option.bind_some,
    if_pos hcount, hvalue]

theorem readGroup?_lt {text : String} {group : Nat} (h : readGroup? text = some group) :
    group < 65536 := by
  obtain ⟨digits, hdigits, h⟩ := Option.bind_eq_some_iff.mp h
  split_ifs at h with hcount
  cases h
  simp only [Bool.and_eq_true, decide_eq_true_eq] at hcount
  calc ofDigits 16 digits < 16 ^ digits.length :=
        ofDigits_lt (forall_of_mapM_eq_some (fun _ _ => hexDigit?_lt) hdigits)
    _ ≤ 16 ^ 4 := Nat.pow_le_pow_right (by decide) hcount.2

section Groups

variable {groups : List Nat} {parts : List String} {part : String}

theorem mapM_readGroup? (h : ∀ group ∈ groups, group < 65536) :
    (groups.map groupText).mapM readGroup? = some groups :=
  mapM_map_eq_some fun group hgroup => readGroup?_groupText (h group hgroup)

theorem lt_of_mapM_readGroup? (h : parts.mapM readGroup? = some groups) :
    ∀ group ∈ groups, group < 65536 :=
  forall_of_mapM_eq_some (fun _ _ => readGroup?_lt) h

theorem mem_of_mem_map_groupText (h : part ∈ groups.map groupText) {c : Char}
    (hc : c ∈ part.toList) : c ∈ hexDigits := by
  obtain ⟨group, _, rfl⟩ := List.mem_map.mp h
  exact mem_groupText hc

/-- No group is written as the empty part that marks a gap. -/
theorem getElem?_map_groupText_ne (groups : List Nat) (i : Nat) :
    (groups.map groupText)[i]? ≠ some "" := by
  rw [List.getElem?_map]
  intro hempty
  obtain ⟨group, _, hgroup⟩ := Option.map_eq_some_iff.mp hempty
  exact groupText_ne_empty group hgroup

end Groups

/-! ## Gaps -/

/-- A run of zeros can be taken out where it starts. -/
theorem drop_eq_of_zeroRuns {groups : List Nat} {place length : Nat}
    (h : (zeroRuns groups)[place]? = some length) :
    groups.drop place = List.replicate length 0 ++ groups.drop (place + length) := by
  induction groups generalizing place length with
  | nil => simp [zeroRuns] at h
  | cons group groups ih =>
    rw [zeroRuns] at h
    cases place with
    | succ place =>
      rw [Nat.add_right_comm]
      exact ih h
    | zero =>
      rw [List.getElem?_cons_zero, Option.some.injEq] at h
      subst h
      split_ifs with hzero
      · -- The run goes on with the one that starts behind this group.
        subst hzero
        rw [List.replicate_succ, List.cons_append, Nat.zero_add, List.drop_succ_cons,
          List.drop_zero]
        congr 1
        cases hruns : zeroRuns groups with
        | nil => simp
        | cons length runs =>
          have hfirst : (zeroRuns groups)[0]? = some length := by rw [hruns]; rfl
          simpa using ih hfirst
      · rfl

/-- What a gap leaves out is a run of zeros. -/
theorem eq_of_longestGap? {groups : List Nat} {place length : Nat}
    (h : longestGap? groups = some (place, length)) :
    2 ≤ length ∧ groups = groups.take place ++ List.replicate length 0
      ++ groups.drop (place + length) := by
  unfold longestGap? at h
  dsimp only at h
  split_ifs at h with hshort
  cases h
  -- Since the longest run is not empty, it is the length of one of them.
  have hmem : ((zeroRuns groups).foldl max 0) ∈ zeroRuns groups := by
    rw [List.foldl_max, Nat.zero_max] at hshort ⊢
    cases hmax : (zeroRuns groups).max? with
    | none => simp [hmax] at hshort
    | some longest => exact List.max?_mem hmax
  have hplace : (zeroRuns groups).findIdx (· == (zeroRuns groups).foldl max 0) <
      (zeroRuns groups).length :=
    List.findIdx_lt_length_of_exists ⟨_, hmem, beq_self_eq_true _⟩
  refine ⟨Nat.le_of_not_lt hshort, ?_⟩
  rw [List.append_assoc, ← drop_eq_of_zeroRuns, List.take_append_drop]
  rw [List.getElem?_eq_getElem hplace]
  exact congrArg some (beq_iff_eq.mp (List.findIdx_getElem (w := hplace)))

/-! ## The parts of an IPv6 address -/

/-- The parts in front of or behind a gap: an empty one if there is nothing. -/
def edge (groups : List Nat) : List String :=
  if groups = [] then [""] else groups.map groupText

/-- What stands between the colons of an address: a gap is an empty part with neighbours. -/
def partsOf (groups : List Nat) : List String :=
  match longestGap? groups with
  | none => groups.map groupText
  | some (place, length) => edge (groups.take place) ++ "" :: edge (groups.drop (place + length))

theorem edge_ne_nil (groups : List Nat) : edge groups ≠ [] := by
  unfold edge
  split_ifs with h
  · exact List.cons_ne_nil _ _
  · rwa [Ne, List.map_eq_nil_iff]

theorem joinGroups_eq (groups : List Nat) :
    joinGroups groups = ":".intercalate (groups.map groupText) :=
  rfl

theorem length_edge (groups : List Nat) : (edge groups).length = max 1 groups.length := by
  unfold edge
  split_ifs with h
  · rw [h]
    rfl
  · have := List.length_pos_iff.mpr h
    rw [List.length_map]
    omega

theorem intercalate_edge (groups : List Nat) :
    ":".intercalate (edge groups) = joinGroups groups := by
  unfold edge
  split_ifs with h
  · rw [h, String.intercalate_singleton]
    rfl
  · rfl

theorem withoutEdge_edge (groups : List Nat) :
    withoutEdge (edge groups) = groups.map groupText := by
  unfold edge
  split_ifs with h
  · rw [h]
    rfl
  · unfold withoutEdge
    rw [if_neg]
    intro hempty
    obtain ⟨group, rfl⟩ : ∃ group, groups = [group] := by
      rw [← List.length_eq_one_iff, ← List.length_map groupText, eq_of_beq hempty]
      rfl
    exact groupText_ne_empty group (List.cons.inj (eq_of_beq hempty)).1

/-- Only an empty edge has an empty part. -/
theorem getElem?_edge_ne {groups : List Nat} {i : Nat} (h : 1 < (edge groups).length) :
    (edge groups)[i]? ≠ some "" := by
  unfold edge at h ⊢
  split_ifs at h ⊢ with hnil
  · exact absurd h (by decide)
  · exact getElem?_map_groupText_ne groups i

theorem mem_edge {groups : List Nat} {part : String} (h : part ∈ edge groups) {c : Char}
    (hc : c ∈ part.toList) : c ∈ hexDigits := by
  unfold edge at h
  split_ifs at h with hnil
  · rw [List.mem_singleton.mp h] at hc
    cases hc
  · exact mem_of_mem_map_groupText h hc

theorem v6Text_eq (address : Nat) :
    v6Text address = ":".intercalate (partsOf (toDigits 65536 8 address)) := by
  cases hgap : longestGap? (toDigits 65536 8 address) with
  | none => simp only [v6Text, partsOf, hgap, joinGroups_eq]
  | some gap =>
    -- The empty part between the two edges joins them by two colons.
    have hcolons : "::" = ":" ++ ":" := rfl
    simp only [v6Text, partsOf, hgap]
    rw [String.intercalate_append_of_ne_nil (edge_ne_nil _) (List.cons_ne_nil _ _),
      String.intercalate_cons_of_ne_nil (edge_ne_nil _), intercalate_edge, intercalate_edge,
      hcolons]
    simp only [String.empty_append, String.append_assoc]

theorem mem_partsOf {groups : List Nat} {part : String} (h : part ∈ partsOf groups) {c : Char}
    (hc : c ∈ part.toList) : c ∈ hexDigits := by
  unfold partsOf at h
  split at h
  · exact mem_of_mem_map_groupText h hc
  · rcases List.mem_append.mp h with hfront | hbehind
    · exact mem_edge hfront hc
    · rcases List.mem_cons.mp hbehind with rfl | hbehind
      · cases hc
      · exact mem_edge hbehind hc

/-- The characters of an IPv6 address. -/
theorem mem_v6Text {address : Nat} {c : Char} (h : c ∈ (v6Text address).toList) :
    c = ':' ∨ c ∈ hexDigits := by
  rw [v6Text_eq] at h
  rcases Text.mem_intercalate h with hcolon | ⟨part, hpart, hc⟩
  · exact .inl (List.mem_singleton.mp hcolon)
  · exact .inr (mem_partsOf hpart hc)

theorem not_mem_v6Text {c : Char} (hc : c ∉ ':' :: hexDigits) (address : Nat) :
    c ∉ (v6Text address).toList :=
  fun h => hc (List.mem_cons.mpr (mem_v6Text h))

/-! ## Reading IPv6 -/

/-- What is read as an address has eight groups. -/
theorem exists_groups_of_readV6? {text : String} {address : Nat} (h : readV6? text = some address) :
    ∃ groups, groups.length = 8 ∧ (∀ group ∈ groups, group < 65536)
      ∧ ofDigits 65536 groups = address := by
  obtain ⟨parts, _, h⟩ := Option.bind_eq_some_iff.mp h
  split_ifs at h with hlong
  · cases h
  split at h
  · obtain ⟨groups, hgroups, h⟩ := Option.bind_eq_some_iff.mp h
    split_ifs at h with hlength
    cases h
    exact ⟨groups, hlength, lt_of_mapM_readGroup? hgroups, rfl⟩
  · obtain ⟨before, hbefore, h⟩ := Option.bind_eq_some_iff.mp h
    obtain ⟨behind, hbehind, h⟩ := Option.bind_eq_some_iff.mp h
    dsimp only at h
    split_ifs at h with hmissing
    · cases h
    cases h
    -- The gap fills up what is missing to eight.
    refine ⟨_, ?_, ?_, rfl⟩
    · simp only [List.length_append, List.length_replicate]
      omega
    · simp only [List.forall_mem_append]
      refine ⟨⟨lt_of_mapM_readGroup? hbefore, ?_⟩, lt_of_mapM_readGroup? hbehind⟩
      intro group hgroup
      rw [List.eq_of_mem_replicate hgroup]
      decide
  · cases h

theorem readV6?_lt {text : String} {address : Nat} (h : readV6? text = some address) :
    address < 2 ^ 128 := by
  obtain ⟨groups, hlength, hgroups, rfl⟩ := exists_groups_of_readV6? h
  have hlt := ofDigits_lt hgroups
  rwa [hlength] at hlt

theorem v6Parts?_of_splitOn {text : String} {parts : List String}
    (hparts : Text.splitOn ":" text = parts) (hcount : 3 ≤ parts.length)
    (hlast : ∀ part ∈ parts, '.' ∉ part.toList) : v6Parts? text = some parts := by
  have hpoint : (parts.getLastD "").toList.contains '.' = false := by
    have hne : parts ≠ [] := List.ne_nil_of_length_pos (by omega)
    rw [List.getLastD_eq_getLast?, List.getLast?_eq_some_getLast hne]
    simpa using hlast _ (List.getLast_mem hne)
  rw [v6Parts?, hparts]
  dsimp only
  rw [if_neg (by omega), if_neg (by rw [hpoint]; decide)]

/-- The gap is the only empty part with neighbours. -/
theorem innerGaps_edge (before behind : List Nat) :
    innerGaps (edge before ++ "" :: edge behind) = [(edge before).length] := by
  have hfront := List.length_pos_iff.mpr (edge_ne_nil before)
  have hbehind := List.length_pos_iff.mpr (edge_ne_nil behind)
  refine List.Pairwise.eq_of_mem_iff (r := (· < ·))
    (List.Pairwise.filter _ List.pairwise_lt_range) (List.pairwise_singleton _ _) fun i => ?_
  rw [innerGaps, List.mem_filter, List.mem_range, List.mem_singleton]
  simp only [List.length_append, List.length_cons, Bool.and_eq_true, decide_eq_true_eq, beq_iff_eq]
  constructor
  · -- An empty part elsewhere would be that of an edge, which then has no neighbour on one side.
    rintro ⟨-, ⟨hi, hinner⟩, hempty⟩
    rcases Nat.lt_trichotomy i (edge before).length with hlt | heq | hgt
    · rw [List.getElem?_append_left hlt] at hempty
      exact absurd hempty (getElem?_edge_ne (by omega))
    · exact heq
    · rw [List.getElem?_append_right (Nat.le_of_lt hgt)] at hempty
      obtain ⟨k, hk⟩ := Nat.exists_eq_succ_of_ne_zero (Nat.sub_ne_zero_of_lt hgt)
      rw [hk, List.getElem?_cons_succ] at hempty
      exact absurd hempty (getElem?_edge_ne (by omega))
  · rintro rfl
    refine ⟨by omega, ⟨hfront, by omega⟩, ?_⟩
    rw [List.getElem?_append_right (Nat.le_refl _), Nat.sub_self]
    rfl

/-- An address without a gap. -/
theorem innerGaps_groups (groups : List Nat) : innerGaps (groups.map groupText) = [] := by
  rw [innerGaps, List.filter_eq_nil_iff]
  intro i _
  simp only [Bool.and_eq_true, beq_iff_eq, not_and]
  exact fun _ => getElem?_map_groupText_ne groups i

section Reading

variable {text : String} {groups before behind : List Nat}

theorem readV6?_of_groups (hgroups : ∀ group ∈ groups, group < 65536) (hlength : groups.length = 8)
    (hparts : v6Parts? text = some (groups.map groupText)) :
    readV6? text = some (ofDigits 65536 groups) := by
  have hcount : ¬ 9 < (groups.map groupText).length := by
    rw [List.length_map]
    omega
  simp only [readV6?, hparts, Option.bind_eq_bind, Option.bind_some, if_neg hcount,
    innerGaps_groups, mapM_readGroup? hgroups, if_pos hlength]

/-- The gap stands for as many zeros as are missing. -/
theorem readV6?_of_gap {length : Nat} (hbefore : ∀ group ∈ before, group < 65536)
    (hbehind : ∀ group ∈ behind, group < 65536)
    (hlength : before.length + length + behind.length = 8) (hgap : 2 ≤ length)
    (hparts : v6Parts? text = some (edge before ++ "" :: edge behind)) :
    readV6? text = some (ofDigits 65536 (before ++ List.replicate length 0 ++ behind)) := by
  have hcount : ¬ 9 < (edge before ++ "" :: edge behind).length := by
    rw [List.length_append, List.length_cons, length_edge, length_edge]
    omega
  have hmissing : 8 - (before.length + behind.length) = length := by omega
  have hfront : (edge before ++ "" :: edge behind).take (edge before).length = edge before :=
    List.take_left
  have hback : (edge before ++ "" :: edge behind).drop ((edge before).length + 1) =
      edge behind := by
    rw [← List.drop_drop, List.drop_left, List.drop_succ_cons, List.drop_zero]
  simp only [readV6?, hparts, Option.bind_eq_bind, Option.bind_some, if_neg hcount, innerGaps_edge,
    hfront, hback, withoutEdge_edge, mapM_readGroup? hbefore, mapM_readGroup? hbehind, hmissing]
  rw [if_neg (by omega)]

theorem length_partsOf (h : 3 ≤ groups.length) :
    3 ≤ (partsOf groups).length := by
  unfold partsOf
  split
  · rwa [List.length_map]
  · rw [List.length_append, List.length_cons, length_edge, length_edge]
    omega

/-- The parts of a text are read as the groups that they are made of. -/
theorem readV6?_of_parts (hlength : groups.length = 8)
    (hgroups : ∀ group ∈ groups, group < 65536) (hparts : v6Parts? text = some (partsOf groups)) :
    readV6? text = some (ofDigits 65536 groups) := by
  unfold partsOf at hparts
  split at hparts
  · exact readV6?_of_groups hgroups hlength hparts
  · next place length hgap =>
    obtain ⟨hlong, heq⟩ := eq_of_longestGap? hgap
    have hsum := congrArg List.length heq
    rw [List.length_append, List.length_append, List.length_replicate, hlength] at hsum
    conv_rhs => rw [heq]
    exact readV6?_of_gap (fun group h => hgroups group (List.mem_of_mem_take h))
      (fun group h => hgroups group (List.mem_of_mem_drop h)) hsum.symm hlong hparts

end Reading

/-- An IPv6 address is read back. -/
theorem readV6?_v6Text {address : Nat} (h : address < 2 ^ 128) :
    readV6? (v6Text address) = some address := by
  have hcount : 3 ≤ (partsOf (toDigits 65536 8 address)).length :=
    length_partsOf (by rw [length_toDigits]; decide)
  have hsplit : Text.splitOn ":" (v6Text address) = partsOf (toDigits 65536 8 address) := by
    rw [v6Text_eq]
    exact Text.splitOn_intercalate rfl (List.ne_nil_of_length_pos (by omega)) fun part hpart hc =>
      absurd (mem_partsOf hpart hc) (by decide)
  have hparts : v6Parts? (v6Text address) = some (partsOf (toDigits 65536 8 address)) :=
    v6Parts?_of_splitOn hsplit hcount fun part hpart hc =>
      absurd (mem_partsOf hpart hc) (by decide)
  rw [readV6?_of_parts (length_toDigits 8 address) (fun _ => lt_of_mem_toDigits (by decide)) hparts,
    ofDigits_toDigits]
  exact congrArg some (Nat.mod_eq_of_lt h)

/-! ## Both families -/

theorem readAddress?_lt {family : Family} {text : String} {address : Nat}
    (h : readAddress? family text = some address) : address < 2 ^ family.bits := by
  cases family with
  | v4 => exact readV4?_lt h
  | v6 =>
    simp only [readAddress?, readScoped?] at h
    split at h
    · exact readV6?_lt h
    · split_ifs at h
      exact readV6?_lt h
    · cases h

/-- An address is read back. -/
theorem readAddress?_addressText {family : Family} {address : Nat} (h : address < 2 ^ family.bits) :
    readAddress? family (addressText family address) = some address := by
  cases family with
  | v4 => exact readV4?_addressText h
  | v6 =>
    have hplain : Text.splitOn "%" (v6Text address) = [v6Text address] :=
      Text.splitOn_of_not_mem rfl (not_mem_v6Text (by decide) address)
    simp only [readAddress?, readScoped?, addressText, hplain]
    exact readV6?_v6Text h

/-- Different addresses have different texts. -/
theorem addressText_inj {family : Family} {address address' : Nat} (h : address < 2 ^ family.bits)
    (h' : address' < 2 ^ family.bits)
    (htext : addressText family address = addressText family address') : address = address' := by
  have hread := readAddress?_addressText h
  rw [htext, readAddress?_addressText h'] at hread
  exact (Option.some.inj hread).symm

/-- An IPv6 address is no IPv4 address. -/
theorem readV4?_v6Text (address : Nat) : readV4? (v6Text address) = none :=
  readV4?_of_not_mem (not_mem_v6Text (by decide) address)

/-- There is no slash in the text of an address. -/
theorem not_mem_addressText (family : Family) (address : Nat) :
    '/' ∉ (addressText family address).toList := by
  cases family with
  | v6 => exact not_mem_v6Text (by decide) address
  | v4 =>
    intro h
    rcases Text.mem_intercalate h with hpoint | ⟨part, hpart, hc⟩
    · exact absurd hpoint (by decide)
    · obtain ⟨n, _, rfl⟩ := List.mem_map.mp hpart
      exact not_mem_toString rfl n hc

end Groundplan.Network
