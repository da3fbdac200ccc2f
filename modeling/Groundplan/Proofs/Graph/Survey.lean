import Groundplan.Graph.Component
import Groundplan.Proofs.Graph.Reach

/-!
# What Holds at Every Step of the Search for Components

The search for components numbers addresses as it meets them and takes a component off its stack
when the first member that was met turns out to reach no smaller number on the stack.  That this
is right rests on what every step preserves: an address on the trail reaches everything above it on
the stack; everything on the stack reaches an address on the trail that is not above it; and a
reference that has been looked at and leads down the stack is recorded in a low number of the
trail.

## Main Definitions

- `Graph.Connected`: two addresses that can be reached from each other
- `Graph.IsCircuit`: a path through all members of a component that has a cycle
- `Graph.Survey.Layout`, `Graph.Survey.Thorough`, `Graph.Survey.Reported`, `Graph.Survey.Sound`:
  what holds at every step of the search

## Main Statements

- `Graph.isCircuit_cyclePath`: the path that is made from the members of a component
- `Graph.Survey.Sound.descend`: following a reference to what has not been met
- `Graph.Survey.Sound.advance`: passing over a reference to what has been met
-/

namespace Groundplan

namespace Graph

open Relation

/-! ## Components and circuits -/

/-- Two addresses that can be reached from each other. -/
def Connected (g : Graph) (a b : String) : Prop :=
  ReflTransGen g.Refers a b ∧ ReflTransGen g.Refers b a

/-- A path through all members of a component that has a cycle, starting at the one that is
declared first. -/
def IsCircuit (g : Graph) (path : List String) : Prop :=
  path.Nodup ∧ ∃ first, path.head? = some first ∧ TransGen g.Refers first first
    ∧ (∀ b, b ∈ path ↔ g.Connected first b) ∧ ∀ b ∈ path, g.position first ≤ g.position b

variable {g : Graph}

theorem Connected.refl (a : String) : g.Connected a a :=
  ⟨.refl, .refl⟩

theorem Connected.symm {a b : String} (h : g.Connected a b) : g.Connected b a :=
  ⟨h.2, h.1⟩

theorem Connected.trans {a b c : String} (hab : g.Connected a b) (hbc : g.Connected b c) :
    g.Connected a c :=
  ⟨hab.1.trans hbc.1, hbc.2.trans hab.2⟩

/-- An address is on a cycle if its component has another member, or if it refers to itself. -/
theorem on_cycle_iff {a : String} :
    TransGen g.Refers a a ↔ (∃ b, b ≠ a ∧ g.Connected a b) ∨ g.Refers a a := by
  constructor
  · intro hcycle
    obtain ⟨b, hstep, hback⟩ := TransGen.head'_iff.mp hcycle
    by_cases hsame : b = a
    · exact .inr (hsame ▸ hstep)
    · exact .inl ⟨b, hsame, .single hstep, hback⟩
  · rintro (⟨b, hne, hway, hback⟩ | hself)
    · rcases reflTransGen_iff_eq_or_transGen.mp hway with hsame | hway
      · exact absurd hsame hne
      · exact .trans_left hway hback
    · exact .single hself

/-- Where one member of a component is on a cycle, each one is. -/
theorem Connected.on_cycle {a b : String} (h : g.Connected a b) (ha : TransGen g.Refers a a) :
    TransGen g.Refers b b :=
  .trans_right h.2 (.trans_left ha h.1)

/-- What is found first in the list of declarations is declared no later than all else that could
be found. -/
theorem position_le_of_find? {members : List String} {first : String}
    (h : g.addresses.find? members.contains = some first) {b : String} (hb : b ∈ members) :
    g.position first ≤ g.position b := by
  obtain ⟨hfirst, before, after, haddresses, hbefore⟩ := List.find?_eq_some_iff_append.mp h
  have houtside : ∀ x ∈ members, x ∉ before := by
    intro x hx hmem
    have habsent := hbefore x hmem
    rw [List.contains_iff_mem.mpr hx] at habsent
    cases habsent
  unfold position
  rw [haddresses, List.idxOf_append_of_notMem (houtside _ (List.contains_iff_mem.mp hfirst)),
    List.idxOf_append_of_notMem (houtside b hb), List.idxOf_cons_self]
  exact Nat.add_le_add_left (Nat.zero_le _) _

/-- A path starts at the member that is found first in the list of declarations. -/
theorem head?_cyclePath {members : List String} {first : String}
    (h : g.addresses.find? members.contains = some first) :
    (g.cyclePath members).head? = some first := by
  have hfirst : first ∈ members := by simpa using List.find?_some h
  rw [cyclePath, h, Option.toList_some, head?_gather]
  simp [hfirst]

/-- The path that is made from the members of a component. -/
theorem isCircuit_cyclePath {members : List String} (hnodup : members.Nodup) {a : String}
    (hdeclared : a ∈ g.addresses) (hmembers : ∀ b, b ∈ members ↔ g.Connected a b)
    (hcycle : TransGen g.Refers a a) :
    g.IsCircuit (g.cyclePath members) ∧ ∀ b, b ∈ g.cyclePath members ↔ b ∈ members := by
  have ha : a ∈ members := (hmembers a).mpr (.refl a)
  obtain ⟨first, hfound⟩ := Option.isSome_iff_exists.mp
    (List.find?_isSome.mpr ⟨a, hdeclared, List.contains_iff_mem.mpr ha⟩)
  have hfirst : first ∈ members := by simpa using List.find?_some hfound
  have hpath : g.cyclePath members = gather g.dependencies members [first] := by
    rw [cyclePath, hfound, Option.toList_some]
  have hhead := head?_cyclePath hfound
  -- A way to a member does not leave the component.
  have hreached : ∀ b, ReflTransGen g.Refers first b → b ∈ members →
      b ∈ gather g.dependencies members [first] := by
    intro b hway
    induction hway with
    | refl => exact fun hb => gather_closed.1 first List.mem_cons_self hb
    | tail hbefore hlast ih =>
      intro hb
      have hback := ((hmembers _).mp hb).2.trans ((hmembers first).mp hfirst).1
      have hbetween := (hmembers _).mpr
        (((hmembers first).mp hfirst).trans ⟨hbefore, .head hlast hback⟩)
      exact gather_closed.2 _ (ih hbetween) _ hlast hb
  have hsame : ∀ b, b ∈ g.cyclePath members ↔ b ∈ members := by
    intro b
    rw [hpath]
    refine ⟨mem_of_mem_gather, fun hb => hreached b ?_ hb⟩
    exact ((hmembers first).mp hfirst).2.trans ((hmembers b).mp hb).1
  refine ⟨⟨hpath ▸ nodup_gather hnodup, first, hhead, ?_, ?_, ?_⟩, hsame⟩
  · exact ((hmembers first).mp hfirst).on_cycle hcycle
  · intro b
    rw [hsame, hmembers]
    exact ⟨((hmembers first).mp hfirst).symm.trans, ((hmembers first).mp hfirst).trans⟩
  · exact fun b hb => position_le_of_find? hfound ((hsame b).mp hb)

namespace Survey

/-! ## What one change does -/

/-- An address has been met. -/
def Met (g : Graph) (s : Survey) (a : String) : Prop :=
  a ∈ g.addresses ∧ a ∉ s.remaining

/-- The component of an address has been taken off the stack. -/
def Completed (g : Graph) (s : Survey) (a : String) : Prop :=
  s.Met g a ∧ a ∉ s.stack

/-- The addresses on the trail, the last one first. -/
def followed (s : Survey) : List String :=
  s.trail.map Prod.fst

/-- A dependency of an address on the trail has not been looked at. -/
def Pending (s : Survey) (a b : String) : Prop :=
  ∃ later, (a, later) ∈ s.trail ∧ b ∈ later

variable {s : Survey}

theorem number_enter_self (x : String) : (s.enter g x).number x = s.count := by
  simp [enter, number]

theorem number_enter_of_ne {x a : String} (h : x ≠ a) : (s.enter g x).number a = s.number a := by
  simp [enter, number, Table.get?_put_of_ne _ _ h]

theorem low_enter_self (x : String) : (s.enter g x).low x = s.count := by
  simp [enter, low]

theorem low_enter_of_ne {x a : String} (h : x ≠ a) : (s.enter g x).low a = s.low a := by
  simp [enter, low, Table.get?_put_of_ne _ _ h]

theorem low_lower_self (a : String) (n : Nat) : (s.lower a n).low a = min (s.low a) n := by
  simp [lower, low]

theorem low_lower_of_ne {a b : String} (n : Nat) (h : a ≠ b) : (s.lower a n).low b = s.low b := by
  simp [lower, low, Table.get?_put_of_ne _ _ h]

theorem low_lower_le (a b : String) (n : Nat) : (s.lower a n).low b ≤ s.low b := by
  by_cases h : a = b
  · subst h
    rw [low_lower_self]
    exact Nat.min_le_left _ _
  · exact Nat.le_of_eq (low_lower_of_ne n h)

/-! ## What holds at every step -/

/-- Numbers descend along the stack.  An address on the trail reaches all that is above it on the
stack, everything on the stack reaches an address on the trail that is not above it, and the low
number of an address on the trail is the number of something on the stack that it reaches. -/
structure Layout (g : Graph) (s : Survey) : Prop where
  fresh : s.remaining.Nodup
  declared : ∀ a ∈ s.remaining, a ∈ g.addresses
  met : ∀ a ∈ s.stack, s.Met g a
  descending : s.stack.Pairwise fun a b => s.number b < s.number a
  below : ∀ a ∈ s.stack, s.number a < s.count
  followed : s.followed.Sublist s.stack
  down : ∀ a ∈ s.followed, ∀ b ∈ s.stack, s.number a ≤ s.number b → ReflTransGen g.Refers a b
  up : ∀ b ∈ s.stack, ∃ a ∈ s.followed, s.number a ≤ s.number b ∧ ReflTransGen g.Refers b a
  low : ∀ a ∈ s.followed, ∃ b ∈ s.stack,
    s.number b = s.low a ∧ s.number b ≤ s.number a ∧ ReflTransGen g.Refers a b

/-- No reference leads out of what is complete, and one that has been looked at and leads down the
stack is recorded on the trail. -/
structure Thorough (g : Graph) (s : Survey) : Prop where
  pending : ∀ a b, s.Pending a b → g.Refers a b
  completed : ∀ a b, s.Completed g a → g.Refers a b → s.Completed g b
  recorded : ∀ a ∈ s.followed, ∀ b ∈ s.stack, s.number a ≤ s.number b →
    ∀ c ∈ s.stack, g.Refers b c → ¬ s.Pending b c →
      ∃ d ∈ s.followed, s.number a ≤ s.number d ∧ s.low d ≤ s.number c

/-- Every reference of an address that has been met leads to another one, or has not been looked
at. -/
def Looked (g : Graph) (s : Survey) : Prop :=
  ∀ a b, s.Met g a → g.Refers a b → s.Met g b ∨ s.Pending a b

/-- The paths lead through different components, and through every one that is complete and has a
cycle. -/
structure Reported (g : Graph) (s : Survey) : Prop where
  circuits : ∀ path ∈ s.paths, g.IsCircuit path ∧ ∀ a ∈ path, s.Completed g a
  complete : ∀ a, s.Completed g a → TransGen g.Refers a a → ∃ path ∈ s.paths, a ∈ path
  disjoint : s.paths.Pairwise List.Disjoint

/-- All that holds at every step of the search. -/
structure Sound (g : Graph) (s : Survey) : Prop where
  layout : Layout g s
  thorough : Thorough g s
  looked : Looked g s
  reported : Reported g s

/-- The search starts soundly. -/
theorem sound_start (hdistinct : g.addresses.Nodup) : Sound g (start g) := by
  have hunmet : ∀ a, ¬ (start g).Met g a := fun a h => h.2 h.1
  have hempty : ∀ a : String, a ∉ ([] : List String) := fun a => List.not_mem_nil
  refine ⟨⟨hdistinct, fun a ha => ha, ?_, .nil, ?_, .slnil, ?_, ?_, ?_⟩, ⟨?_, ?_, ?_⟩, ?_,
    ⟨?_, ?_, .nil⟩⟩
  · exact fun a ha => absurd ha (hempty a)
  · exact fun a ha => absurd ha (hempty a)
  · exact fun a ha => absurd ha (hempty a)
  · exact fun a ha => absurd ha (hempty a)
  · exact fun a ha => absurd ha (hempty a)
  · rintro a b ⟨_, hmem, _⟩
    exact absurd hmem List.not_mem_nil
  · exact fun a b ha => absurd ha.1 (hunmet a)
  · exact fun a ha => absurd ha (hempty a)
  · exact fun a b ha => absurd ha (hunmet a)
  · exact fun path hpath => absurd hpath List.not_mem_nil
  · exact fun a ha => absurd ha.1 (hunmet a)

namespace Layout

variable (h : Layout g s)

include h

theorem nodup : s.stack.Nodup :=
  h.descending.imp fun hlt hsame => Nat.ne_of_gt hlt (congrArg s.number hsame)

theorem mem_stack {a : String} (ha : a ∈ s.followed) : a ∈ s.stack :=
  h.followed.subset ha

/-- The last address on the trail has the greatest number. -/
theorem lt_of_followed {a : String} {rest : List String} (htrail : s.followed = a :: rest)
    {b : String} (hb : b ∈ rest) : s.number b < s.number a := by
  have hdescending := h.descending.sublist h.followed
  rw [htrail] at hdescending
  exact (List.pairwise_cons.mp hdescending).1 b hb

theorem le_of_followed {a : String} {rest : List String} (htrail : s.followed = a :: rest)
    {b : String} (hb : b ∈ s.followed) : s.number b ≤ s.number a := by
  rw [htrail] at hb
  rcases List.mem_cons.mp hb with rfl | hrest
  · exact Nat.le_refl _
  · exact Nat.le_of_lt (h.lt_of_followed htrail hrest)

theorem low_le_number {a : String} (ha : a ∈ s.followed) : s.low a ≤ s.number a := by
  obtain ⟨b, _, hlow, hle, _⟩ := h.low a ha
  exact hlow ▸ hle

/-- What is on the stack has a number less than that of an address, or lies from it upwards. -/
theorem number_lt_iff {above below : List String} {a : String}
    (hstack : s.stack = above ++ a :: below) {b : String} (hb : b ∈ s.stack) :
    s.number b < s.number a ↔ b ∈ below := by
  have hdescending := h.descending
  rw [hstack] at hdescending
  obtain ⟨_, hrest, habove⟩ := List.pairwise_append.mp hdescending
  constructor
  · intro hlt
    rw [hstack] at hb
    rcases List.mem_append.mp hb with hb | hb
    · exact absurd (habove b hb a List.mem_cons_self) (Nat.lt_asymm hlt)
    · rcases List.mem_cons.mp hb with rfl | hb
      · exact absurd hlt (Nat.lt_irrefl _)
      · exact hb
  · exact fun hb => (List.pairwise_cons.mp hrest).1 b hb

end Layout

/-! ## Meeting an address -/

/-- No component is completed when an address is met. -/
theorem completed_enter_iff {x a : String} (hx : x ∈ s.remaining) :
    (s.enter g x).Completed g a ↔ s.Completed g a := by
  constructor
  · rintro ⟨⟨hdeclared, hmet⟩, houtside⟩
    have hne : a ≠ x := fun hsame => houtside (hsame ▸ List.mem_cons_self)
    exact ⟨⟨hdeclared, fun hmem => hmet ((List.mem_erase_of_ne hne).mpr hmem)⟩,
      fun hmem => houtside (List.mem_cons_of_mem x hmem)⟩
  · rintro ⟨⟨hdeclared, hmet⟩, houtside⟩
    refine ⟨⟨hdeclared, fun hmem => hmet (List.mem_of_mem_erase hmem)⟩, fun hmem => ?_⟩
    rcases List.mem_cons.mp hmem with rfl | hmem
    · exact hmet hx
    · exact houtside hmem

/-- An address that has not been met may be met next if everything on the trail reaches it. -/
theorem Layout.enter (h : Layout g s) {x : String} (hx : x ∈ s.remaining)
    (hreach : ∀ a ∈ s.followed, ReflTransGen g.Refers a x) : Layout g (s.enter g x) := by
  have hne : ∀ a ∈ s.stack, x ≠ a := fun a ha hsame => (h.met a ha).2 (hsame ▸ hx)
  have hnumber : ∀ a ∈ s.stack, (s.enter g x).number a = s.number a :=
    fun a ha => number_enter_of_ne (hne a ha)
  have hself : (s.enter g x).number x = s.count := number_enter_self x
  refine ⟨h.fresh.erase x, fun a ha => h.declared a (List.mem_of_mem_erase ha), ?_, ?_, ?_,
    h.followed.cons_cons x, ?_, ?_, ?_⟩
  · intro a ha
    rcases List.mem_cons.mp ha with rfl | ha
    · exact ⟨h.declared a hx, h.fresh.not_mem_erase⟩
    · exact ⟨(h.met a ha).1, fun hmem => (h.met a ha).2 (List.mem_of_mem_erase hmem)⟩
  · refine List.pairwise_cons.mpr ⟨fun a ha => ?_, h.descending.imp_of_mem fun ha hb hlt => ?_⟩
    · rw [hnumber a ha, hself]
      exact h.below a ha
    · rwa [hnumber _ ha, hnumber _ hb]
  · intro a ha
    rcases List.mem_cons.mp ha with rfl | ha
    · rw [hself]
      exact Nat.lt_succ_self _
    · rw [hnumber a ha]
      exact Nat.lt_succ_of_lt (h.below a ha)
  · intro a ha b hb hle
    rcases List.mem_cons.mp hb with rfl | hold
    · rcases List.mem_cons.mp ha with rfl | ha
      · exact .refl
      · exact hreach a ha
    · rw [hnumber b hold] at hle
      rcases List.mem_cons.mp ha with rfl | ha
      · rw [hself] at hle
        exact absurd (h.below b hold) (Nat.not_lt.mpr hle)
      · rw [hnumber a (h.mem_stack ha)] at hle
        exact h.down a ha b hold hle
  · intro b hb
    rcases List.mem_cons.mp hb with rfl | hb
    · exact ⟨b, List.mem_cons_self, Nat.le_refl _, .refl⟩
    · obtain ⟨a, ha, hle, hway⟩ := h.up b hb
      refine ⟨a, List.mem_cons_of_mem x ha, ?_, hway⟩
      rwa [hnumber a (h.mem_stack ha), hnumber b hb]
  · intro a ha
    rcases List.mem_cons.mp ha with rfl | ha
    · exact ⟨a, List.mem_cons_self, by rw [hself, low_enter_self], Nat.le_refl _, .refl⟩
    · obtain ⟨b, hb, hlow, hle, hway⟩ := h.low a ha
      refine ⟨b, List.mem_cons_of_mem x hb, ?_, ?_, hway⟩
      · rw [hnumber b hb, low_enter_of_ne (hne a (h.mem_stack ha))]
        exact hlow
      · rwa [hnumber b hb, hnumber a (h.mem_stack ha)]

theorem Thorough.enter (h : Thorough g s) (hlayout : Layout g s) {x : String}
    (hx : x ∈ s.remaining) : Thorough g (s.enter g x) := by
  have hne : ∀ a ∈ s.stack, x ≠ a := fun a ha hsame => (hlayout.met a ha).2 (hsame ▸ hx)
  have hnumber : ∀ a ∈ s.stack, (s.enter g x).number a = s.number a :=
    fun a ha => number_enter_of_ne (hne a ha)
  have hself : (s.enter g x).number x = s.count := number_enter_self x
  have hlow : ∀ a ∈ s.followed, (s.enter g x).low a = s.low a :=
    fun a ha => low_enter_of_ne (hne a (hlayout.mem_stack ha))
  refine ⟨?_, ?_, ?_⟩
  · rintro a b ⟨later, hmem, hb⟩
    rcases List.mem_cons.mp hmem with hnew | hold
    · cases hnew
      exact hb
    · exact h.pending a b ⟨later, hold, hb⟩
  · intro a b ha hrefers
    exact (completed_enter_iff hx).mpr (h.completed a b ((completed_enter_iff hx).mp ha) hrefers)
  · intro a ha b hb hle c hc hrefers hlooked
    rcases List.mem_cons.mp hc with rfl | hc
    · -- Nothing on the trail has a greater low number than the last one that was given.
      refine ⟨a, ha, Nat.le_refl _, ?_⟩
      rw [hself]
      rcases List.mem_cons.mp ha with rfl | ha
      · exact Nat.le_of_eq (low_enter_self a)
      · rw [hlow a ha]
        exact Nat.le_trans (hlayout.low_le_number ha)
          (Nat.le_of_lt (hlayout.below a (hlayout.mem_stack ha)))
    · rcases List.mem_cons.mp hb with rfl | hold
      · exact absurd ⟨g.dependencies b, List.mem_cons_self, hrefers⟩ hlooked
      · rw [hnumber b hold] at hle
        rcases List.mem_cons.mp ha with rfl | ha
        · rw [hself] at hle
          exact absurd (hlayout.below b hold) (Nat.not_lt.mpr hle)
        · rw [hnumber a (hlayout.mem_stack ha)] at hle
          have hbefore : ¬ s.Pending b c := fun hpending => by
            obtain ⟨later, hmem, hlater⟩ := hpending
            exact hlooked ⟨later, List.mem_cons_of_mem _ hmem, hlater⟩
          obtain ⟨d, hd, hnum, hrec⟩ := h.recorded a ha b hold hle c hc hrefers hbefore
          refine ⟨d, List.mem_cons_of_mem x hd, ?_, ?_⟩
          · rwa [hnumber a (hlayout.mem_stack ha), hnumber d (hlayout.mem_stack hd)]
          · rwa [hlow d hd, hnumber c hc]

theorem Reported.enter (h : Reported g s) {x : String} (hx : x ∈ s.remaining) :
    Reported g (s.enter g x) := by
  refine ⟨fun path hpath => ?_, fun a ha => h.complete a ((completed_enter_iff hx).mp ha),
    h.disjoint⟩
  obtain ⟨hcircuit, hcompleted⟩ := h.circuits path hpath
  exact ⟨hcircuit, fun a ha => (completed_enter_iff hx).mpr (hcompleted a ha)⟩

/-- What everything on the trail reaches may be met; it must be the only thing that some reference
that has been looked at leads to without its having been met. -/
theorem Sound.enter (hlayout : Layout g s) (hthorough : Thorough g s) (hreported : Reported g s)
    {x : String} (hx : x ∈ s.remaining) (hreach : ∀ a ∈ s.followed, ReflTransGen g.Refers a x)
    (hlooked : ∀ a b, s.Met g a → g.Refers a b → s.Met g b ∨ s.Pending a b ∨ b = x) :
    Sound g (s.enter g x) := by
  refine ⟨hlayout.enter hx hreach, hthorough.enter hlayout hx, ?_, hreported.enter hx⟩
  intro a b ha hrefers
  have hxmet : (s.enter g x).Met g x := ⟨hlayout.declared x hx, hlayout.fresh.not_mem_erase⟩
  by_cases hax : a = x
  · subst hax
    exact .inr ⟨g.dependencies a, List.mem_cons_self, hrefers⟩
  · have hold : s.Met g a :=
      ⟨ha.1, fun hmem => ha.2 ((List.mem_erase_of_ne hax).mpr hmem)⟩
    rcases hlooked a b hold hrefers with hb | ⟨later, hmem, hb⟩ | rfl
    · exact .inl ⟨hb.1, fun hmem => hb.2 (List.mem_of_mem_erase hmem)⟩
    · exact .inr ⟨later, List.mem_cons_of_mem _ hmem, hb⟩
    · exact .inl hxmet

/-! ## Looking at a reference -/

/-- An address on the trail may be noted to reach what it reaches on the stack. -/
theorem Sound.lower (h : Sound g s) {a c : String} (ha : a ∈ s.followed) (hc : c ∈ s.stack)
    (hreach : ReflTransGen g.Refers a c) : Sound g (s.lower a (s.number c)) := by
  obtain ⟨hlayout, hthorough, hlooked, hreported⟩ := h
  refine ⟨⟨hlayout.fresh, hlayout.declared, hlayout.met, hlayout.descending, hlayout.below,
    hlayout.followed, hlayout.down, hlayout.up, ?_⟩,
    ⟨hthorough.pending, hthorough.completed, ?_⟩, hlooked,
    ⟨hreported.circuits, hreported.complete, hreported.disjoint⟩⟩
  · intro b hb
    by_cases hsame : a = b
    · subst hsame
      obtain ⟨d, hd, hlow, hle, hway⟩ := hlayout.low a ha
      rw [low_lower_self]
      rcases Nat.le_total (s.low a) (s.number c) with hleast | hleast
      · exact ⟨d, hd, hlow.trans (Nat.min_eq_left hleast).symm, hle, hway⟩
      · exact ⟨c, hc, (Nat.min_eq_right hleast).symm, Nat.le_trans hleast (hlow ▸ hle), hreach⟩
    · rw [low_lower_of_ne _ hsame]
      exact hlayout.low b hb
  · intro b hb d hd hle e he hrefers hnot
    obtain ⟨f, hf, hnum, hrec⟩ := hthorough.recorded b hb d hd hle e he hrefers hnot
    exact ⟨f, hf, hnum, Nat.le_trans (low_lower_le _ _ _) hrec⟩

section Advance

variable {a x : String} {later : List String} {rest : List (String × List String)}

theorem followed_advance (htrail : s.trail = (a, x :: later) :: rest) :
    ({ s with trail := (a, later) :: rest } : Survey).followed = s.followed := by
  rw [followed, followed, htrail]
  rfl

/-- Once a reference has been looked at, all others are pending as before. -/
theorem pending_advance (htrail : s.trail = (a, x :: later) :: rest) {b c : String} :
    (({ s with trail := (a, later) :: rest } : Survey).Pending b c → s.Pending b c)
      ∧ (s.Pending b c → ({ s with trail := (a, later) :: rest } : Survey).Pending b c
        ∨ b = a ∧ c = x) := by
  unfold Pending
  rw [htrail]
  constructor
  · rintro ⟨those, hmem, hc⟩
    rcases List.mem_cons.mp hmem with hnew | hold
    · cases hnew
      exact ⟨_, List.mem_cons_self, List.mem_cons_of_mem x hc⟩
    · exact ⟨those, List.mem_cons_of_mem _ hold, hc⟩
  · rintro ⟨those, hmem, hc⟩
    rcases List.mem_cons.mp hmem with hnew | hold
    · cases hnew
      rcases List.mem_cons.mp hc with rfl | hc
      · exact .inr ⟨rfl, rfl⟩
      · exact .inl ⟨later, List.mem_cons_self, hc⟩
    · exact .inl ⟨those, List.mem_cons_of_mem _ hold, hc⟩

theorem Layout.advance (h : Layout g s) (htrail : s.trail = (a, x :: later) :: rest) :
    Layout g { s with trail := (a, later) :: rest } := by
  have hfollowed := followed_advance htrail
  exact ⟨h.fresh, h.declared, h.met, h.descending, h.below, hfollowed ▸ h.followed,
    hfollowed ▸ h.down, hfollowed ▸ h.up, hfollowed ▸ h.low⟩

theorem Thorough.advance (h : Thorough g s) (htrail : s.trail = (a, x :: later) :: rest)
    (hrecorded : x ∈ s.stack → s.low a ≤ s.number x) :
    Thorough g { s with trail := (a, later) :: rest } := by
  have hfollowed := followed_advance htrail
  refine ⟨fun b c hpending => h.pending b c ((pending_advance htrail).1 hpending), h.completed, ?_⟩
  rw [hfollowed]
  intro d hd b hb hle c hc hrefers hlooked
  by_cases hbefore : s.Pending b c
  · obtain ⟨rfl, rfl⟩ := ((pending_advance htrail).2 hbefore).resolve_left hlooked
    have hlast : b ∈ s.followed := by
      rw [followed, htrail]
      exact List.mem_cons_self
    exact ⟨b, hlast, hle, hrecorded hc⟩
  · exact h.recorded d hd b hb hle c hc hrefers hbefore

/-- A reference to what has been met needs no further look once it is recorded. -/
theorem Sound.advance (h : Sound g s) (htrail : s.trail = (a, x :: later) :: rest)
    (hmet : s.Met g x) (hrecorded : x ∈ s.stack → s.low a ≤ s.number x) :
    Sound g { s with trail := (a, later) :: rest } := by
  refine ⟨h.layout.advance htrail, h.thorough.advance htrail hrecorded, ?_,
    ⟨h.reported.circuits, h.reported.complete, h.reported.disjoint⟩⟩
  intro b c hb hrefers
  rcases h.looked b c hb hrefers with hc | hpending
  · exact .inl hc
  · rcases (pending_advance htrail).2 hpending with hstill | ⟨rfl, rfl⟩
    · exact .inr hstill
    · exact .inl hmet

/-- A reference to what has not been met is followed. -/
theorem Sound.descend (h : Sound g s) (htrail : s.trail = (a, x :: later) :: rest)
    (hx : x ∈ s.remaining) :
    Sound g (({ s with trail := (a, later) :: rest } : Survey).enter g x) := by
  have hlast : s.followed = a :: rest.map Prod.fst := by
    rw [followed, htrail]
    rfl
  have ha : a ∈ s.followed := hlast ▸ List.mem_cons_self
  have hrefers : g.Refers a x := by
    refine h.thorough.pending a x ⟨x :: later, ?_, List.mem_cons_self⟩
    rw [htrail]
    exact List.mem_cons_self
  have hunmet : x ∉ s.stack := fun hmem => (h.layout.met x hmem).2 hx
  refine Sound.enter (h.layout.advance htrail)
    (h.thorough.advance htrail fun hmem => absurd hmem hunmet)
    ⟨h.reported.circuits, h.reported.complete, h.reported.disjoint⟩ hx ?_ ?_
  · intro b hb
    rw [followed_advance htrail] at hb
    exact .tail (h.layout.down b hb a (h.layout.mem_stack ha) (h.layout.le_of_followed hlast hb))
      hrefers
  · intro b c hb hrefers
    rcases h.looked b c hb hrefers with hc | hpending
    · exact .inl hc
    · rcases (pending_advance htrail).2 hpending with hstill | ⟨_, hc⟩
      · exact .inr (.inl hstill)
      · exact .inr (.inr hc)

end Advance

end Survey

end Graph

end Groundplan
