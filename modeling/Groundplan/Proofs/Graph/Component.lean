import Groundplan.Proofs.Graph.Survey

/-!
# The Search for Components

When all references of an address have been looked at, it is a root or not.  A root reaches no
smaller number on the stack, and what lies on the stack from it upwards is its component; any other
address stays on the stack, to be taken off with a root below it.  At the end of the search every
component is complete.

## Main Statements

- `Graph.Survey.Sound.connected_iff`: what lies on the stack from a root upwards is a component
- `Graph.Survey.Sound.leave`: leaving an address
- `Graph.Survey.Sound.step`, `Graph.Survey.Sound.explore`: what one step and a whole search preserve
- `Graph.sound_survey`: a search over all declarations completes them all
-/

namespace Groundplan

namespace Graph

open Relation

namespace Survey

variable {g : Graph} {s : Survey}

/-! ## Leaving an address -/

section Leave

variable {a : String} {rest : List (String × List String)}

theorem followed_cons (htrail : s.trail = (a, []) :: rest) :
    s.followed = a :: rest.map Prod.fst := by
  rw [followed, htrail]
  rfl

/-- An address without further references has nothing pending. -/
theorem pending_iff_rest (htrail : s.trail = (a, []) :: rest) {b c : String} :
    s.Pending b c ↔ ({ s with trail := rest } : Survey).Pending b c := by
  unfold Pending
  rw [htrail]
  constructor
  · rintro ⟨later, hmem, hc⟩
    rcases List.mem_cons.mp hmem with hlast | hrest
    · cases hlast
      exact absurd hc List.not_mem_nil
    · exact ⟨later, hrest, hc⟩
  · rintro ⟨later, hmem, hc⟩
    exact ⟨later, List.mem_cons_of_mem _ hmem, hc⟩

/-- An address that reaches a smaller number on the stack is left there. -/
theorem Sound.retire (h : Sound g s) (htrail : s.trail = (a, []) :: rest)
    (hlow : s.low a ≠ s.number a) (hparent : ∀ p ∈ (rest.map Prod.fst).head?, s.low p ≤ s.low a) :
    Sound g { s with trail := rest } := by
  have hlast := followed_cons htrail
  have ha : a ∈ s.followed := hlast ▸ List.mem_cons_self
  have hsub : ∀ b ∈ rest.map Prod.fst, b ∈ s.followed := fun b hb =>
    hlast ▸ List.mem_cons_of_mem a hb
  obtain ⟨hlayout, hthorough, hlooked, hreported⟩ := h
  refine ⟨⟨hlayout.fresh, hlayout.declared, hlayout.met, hlayout.descending, hlayout.below,
    ?_, fun b hb => hlayout.down b (hsub b hb), ?_, fun b hb => hlayout.low b (hsub b hb)⟩,
    ⟨fun b c hpending => hthorough.pending b c ((pending_iff_rest htrail).mpr hpending),
      hthorough.completed, ?_⟩,
    fun b c hb hrefers => (hlooked b c hb hrefers).imp_right (pending_iff_rest htrail).mp,
    ⟨hreported.circuits, hreported.complete, hreported.disjoint⟩⟩
  · exact (List.sublist_cons_self a _).trans (hlast ▸ hlayout.followed)
  · intro b hb
    obtain ⟨d, hd, hle, hway⟩ := hlayout.up b hb
    rw [hlast] at hd
    rcases List.mem_cons.mp hd with rfl | hd
    · -- The address reaches something below it, from which the trail is reached.
      obtain ⟨e, he, hnum, hbelow, hdown⟩ := hlayout.low d ha
      obtain ⟨f, hf, hleast, hup⟩ := hlayout.up e he
      have hlt : s.number f < s.number d :=
        Nat.lt_of_le_of_lt hleast (Nat.lt_of_le_of_ne hbelow (hnum ▸ hlow))
      rw [hlast] at hf
      rcases List.mem_cons.mp hf with rfl | hf
      · exact absurd hlt (Nat.lt_irrefl _)
      · exact ⟨f, hf, Nat.le_trans (Nat.le_of_lt hlt) hle, hway.trans (hdown.trans hup)⟩
    · exact ⟨d, hd, hle, hway⟩
  · intro d hd b hb hle c hc hrefers hnot
    obtain ⟨e, he, hnum, hrec⟩ := hthorough.recorded d (hsub d hd) b hb hle c hc hrefers
      (fun hpending => hnot ((pending_iff_rest htrail).mp hpending))
    rw [hlast] at he
    rcases List.mem_cons.mp he with rfl | he
    · -- What the address reaches is recorded for the one before it on the trail.
      have hmem : d ∈ rest.map Prod.fst := hd
      have hdescending := hlayout.descending.sublist hlayout.followed
      rw [hlast] at hdescending
      have hothers := (List.pairwise_cons.mp hdescending).2
      show ∃ e ∈ rest.map Prod.fst, s.number d ≤ s.number e ∧ s.low e ≤ s.number c
      cases hrest : rest.map Prod.fst with
      | nil => exact absurd (hrest ▸ hmem) List.not_mem_nil
      | cons p others =>
        rw [hrest] at hmem hothers
        refine ⟨p, List.mem_cons_self, ?_, Nat.le_trans (hparent p (by rw [hrest]; rfl)) hrec⟩
        rcases List.mem_cons.mp hmem with rfl | hmem
        · exact Nat.le_refl _
        · exact Nat.le_of_lt ((List.pairwise_cons.mp hothers).1 d hmem)
    · exact ⟨e, he, hnum, hrec⟩

variable {above below : List String}

/-- References from the top of the stack downwards to a root lead to the same part of the stack or
to what is complete. -/
theorem Sound.contained (h : Sound g s) (htrail : s.trail = (a, []) :: rest)
    (hroot : s.low a = s.number a) (hstack : s.stack = above ++ a :: below) {b c : String}
    (hb : b ∈ s.stack) (hbelow : b ∉ below) (hrefers : g.Refers b c) :
    c ∈ s.stack ∧ c ∉ below ∨ s.Completed g c := by
  have hlast := followed_cons htrail
  have ha : a ∈ s.followed := hlast ▸ List.mem_cons_self
  have hle : s.number a ≤ s.number b :=
    Nat.not_lt.mp fun hlt => hbelow ((h.layout.number_lt_iff hstack hb).mp hlt)
  have hlooked : ¬ s.Pending b c := by
    rw [pending_iff_rest htrail]
    rintro ⟨later, hmem, _⟩
    have hfollowed : b ∈ rest.map Prod.fst := List.mem_map.mpr ⟨_, hmem, rfl⟩
    exact absurd (h.layout.lt_of_followed hlast hfollowed) (Nat.not_lt.mpr hle)
  have hmet : s.Met g c := (h.looked b c (h.layout.met b hb) hrefers).resolve_right hlooked
  by_cases hc : c ∈ s.stack
  · refine .inl ⟨hc, fun hcbelow => ?_⟩
    -- Otherwise the low number of the root would be less than its number.
    obtain ⟨d, hd, hnum, hrec⟩ := h.thorough.recorded a ha b hb hle c hc hrefers hlooked
    have hlt := (h.layout.number_lt_iff hstack hc).mpr hcbelow
    rw [hlast] at hd
    rcases List.mem_cons.mp hd with rfl | hd
    · exact absurd hlt (Nat.not_lt.mpr (hroot ▸ hrec))
    · exact absurd (h.layout.lt_of_followed hlast hd) (Nat.not_lt.mpr hnum)
  · exact .inr ⟨hmet, hc⟩

/-- What is complete reaches only what is complete. -/
theorem Sound.completed_of_reach (h : Sound g s) {b c : String} (hb : s.Completed g b)
    (hway : ReflTransGen g.Refers b c) : s.Completed g c := by
  induction hway with
  | refl => exact hb
  | tail _ hlast ih => exact h.thorough.completed _ _ ih hlast

/-- What lies on the stack from a root upwards is the component of the root. -/
theorem Sound.connected_iff (h : Sound g s) (htrail : s.trail = (a, []) :: rest)
    (hroot : s.low a = s.number a) (hstack : s.stack = above ++ a :: below) (b : String) :
    g.Connected a b ↔ b ∈ s.stack ∧ b ∉ below := by
  have hlast := followed_cons htrail
  have ha : a ∈ s.followed := hlast ▸ List.mem_cons_self
  have hastack := h.layout.mem_stack ha
  have habelow : a ∉ below := fun hmem =>
    absurd ((h.layout.number_lt_iff hstack hastack).mpr hmem) (Nat.lt_irrefl _)
  constructor
  · rintro ⟨hway, hback⟩
    have hreached : ∀ c, ReflTransGen g.Refers a c →
        c ∈ s.stack ∧ c ∉ below ∨ s.Completed g c := by
      intro c hway
      induction hway with
      | refl => exact .inl ⟨hastack, habelow⟩
      | tail _ hstep ih =>
        rcases ih with ⟨hmem, hbelow⟩ | hcompleted
        · exact h.contained htrail hroot hstack hmem hbelow hstep
        · exact .inr (h.thorough.completed _ _ hcompleted hstep)
    refine (hreached b hway).resolve_right fun hcompleted => ?_
    exact (h.completed_of_reach hcompleted hback).2 hastack
  · rintro ⟨hb, hbelow⟩
    have hle : s.number a ≤ s.number b :=
      Nat.not_lt.mp fun hlt => hbelow ((h.layout.number_lt_iff hstack hb).mp hlt)
    obtain ⟨d, hd, _, hway⟩ := h.layout.up b hb
    exact ⟨h.layout.down a ha b hb hle,
      hway.trans (h.layout.down d hd a hastack (h.layout.le_of_followed hlast hd))⟩

/-- What is closed lies on the stack from an address upwards. -/
theorem close_eq (hstack : s.stack = above ++ a :: below) (habove : a ∉ above) :
    s.close g a = { s with
      stack := below
      paths := if 1 < (a :: above).length ∨ (g.dependencies a).contains a
        then s.paths ++ [g.cyclePath (a :: above)] else s.paths } := by
  have hbefore : ∀ b ∈ above, decide (b ≠ a) = true := fun b hb =>
    decide_eq_true fun hsame => habove (hsame ▸ hb)
  have htake : s.stack.takeWhile (· ≠ a) = above := by
    rw [hstack, List.takeWhile_append_of_pos hbefore]
    simp
  have hdrop : s.stack.dropWhile (· ≠ a) = a :: below := by
    rw [hstack, List.dropWhile_append_of_pos hbefore]
    simp
  simp only [close, htake, hdrop, List.drop_succ_cons, List.drop_zero]
  cases hcycle : decide (1 < (a :: above).length) || (g.dependencies a).contains a with
  | true => rw [if_pos (by simpa using hcycle)]
  | false => rw [if_neg (by simpa using hcycle)]

theorem Layout.close (h : Layout g s) (htrail : s.trail = (a, []) :: rest)
    (hstack : s.stack = above ++ a :: below) (paths : List (List String)) :
    Layout g { s with trail := rest, stack := below, paths := paths } := by
  have hlast := followed_cons htrail
  have hsub : ∀ b ∈ rest.map Prod.fst, b ∈ s.followed := fun b hb =>
    hlast ▸ List.mem_cons_of_mem a hb
  have hbelow : ∀ b ∈ below, b ∈ s.stack := fun b hb =>
    hstack ▸ List.mem_append_right above (List.mem_cons_of_mem a hb)
  have hlower : ∀ b ∈ below, s.number b < s.number a := fun b hb =>
    (h.number_lt_iff hstack (hbelow b hb)).mpr hb
  have hsuffix : below.Sublist s.stack :=
    hstack ▸ (List.sublist_cons_self a below).trans (List.sublist_append_right above _)
  have hrest : ∀ b ∈ rest.map Prod.fst, b ∈ below := fun b hb =>
    (h.number_lt_iff hstack (h.mem_stack (hsub b hb))).mp (h.lt_of_followed hlast hb)
  refine ⟨h.fresh, h.declared, fun b hb => h.met b (hbelow b hb), h.descending.sublist hsuffix,
    fun b hb => h.below b (hbelow b hb), ?_,
    fun b hb c hc => h.down b (hsub b hb) c (hbelow c hc), ?_, ?_⟩
  · have hsublist := h.followed
    rw [hlast, hstack] at hsublist
    have hnodup := h.nodup
    rw [hstack] at hnodup
    have habove : a ∉ above := fun hmem =>
      (List.nodup_append.mp hnodup).2.2 a hmem a List.mem_cons_self rfl
    obtain ⟨front, back, hsplit, hfront, hback⟩ := List.sublist_append_iff.mp hsublist
    cases front with
    | nil =>
      rw [List.nil_append] at hsplit
      exact List.cons_sublist_cons.mp (hsplit ▸ hback)
    | cons b others =>
      obtain ⟨rfl, _⟩ := List.cons.inj hsplit
      exact absurd (hfront.subset List.mem_cons_self) habove
  · intro b hb
    obtain ⟨d, hd, hle, hway⟩ := h.up b (hbelow b hb)
    rw [hlast] at hd
    rcases List.mem_cons.mp hd with rfl | hd
    · exact absurd (hlower b hb) (Nat.not_lt.mpr hle)
    · exact ⟨d, hd, hle, hway⟩
  · intro b hb
    obtain ⟨d, hd, hnum, hle, hway⟩ := h.low b (hsub b hb)
    have hlt := Nat.lt_of_le_of_lt hle (hlower b (hrest b hb))
    exact ⟨d, (h.number_lt_iff hstack hd).mp hlt, hnum, hle, hway⟩

/-- A component is complete when it is taken off the stack from its root upwards. -/
theorem Sound.completed_close_iff (h : Sound g s) (htrail : s.trail = (a, []) :: rest)
    (hroot : s.low a = s.number a) (hstack : s.stack = above ++ a :: below)
    (paths : List (List String)) (b : String) :
    ({ s with trail := rest, stack := below, paths := paths } : Survey).Completed g b
      ↔ s.Completed g b ∨ g.Connected a b := by
  rw [h.connected_iff htrail hroot hstack]
  have hbelow : b ∈ below → b ∈ s.stack := fun hb =>
    hstack ▸ List.mem_append_right above (List.mem_cons_of_mem a hb)
  constructor
  · rintro ⟨hmet, houtside⟩
    by_cases hb : b ∈ s.stack
    · exact .inr ⟨hb, houtside⟩
    · exact .inl ⟨hmet, hb⟩
  · rintro (⟨hmet, houtside⟩ | ⟨hb, houtside⟩)
    · exact ⟨hmet, fun hmem => houtside (hbelow hmem)⟩
    · exact ⟨h.layout.met b hb, houtside⟩

theorem Sound.thorough_close (h : Sound g s) (htrail : s.trail = (a, []) :: rest)
    (hroot : s.low a = s.number a) (hstack : s.stack = above ++ a :: below)
    (paths : List (List String)) :
    Thorough g { s with trail := rest, stack := below, paths := paths } := by
  have hlast := followed_cons htrail
  have hbelow : ∀ b ∈ below, b ∈ s.stack := fun b hb =>
    hstack ▸ List.mem_append_right above (List.mem_cons_of_mem a hb)
  refine ⟨fun b c hpending => h.thorough.pending b c ((pending_iff_rest htrail).mpr hpending),
    ?_, ?_⟩
  · intro b c hb hrefers
    rw [h.completed_close_iff htrail hroot hstack] at hb ⊢
    rcases hb with hb | hb
    · exact .inl (h.thorough.completed b c hb hrefers)
    · obtain ⟨hmem, hupper⟩ := (h.connected_iff htrail hroot hstack b).mp hb
      rw [h.connected_iff htrail hroot hstack]
      exact (h.contained htrail hroot hstack hmem hupper hrefers).symm
  · intro d hd b hb hle c hc hrefers hnot
    have hmem : d ∈ s.followed := hlast ▸ List.mem_cons_of_mem a hd
    obtain ⟨e, he, hnum, hrec⟩ := h.thorough.recorded d hmem b (hbelow b hb) hle c (hbelow c hc)
      hrefers (fun hpending => hnot ((pending_iff_rest htrail).mp hpending))
    rw [hlast] at he
    rcases List.mem_cons.mp he with rfl | he
    · have hlt := (h.layout.number_lt_iff hstack (hbelow c hc)).mpr hc
      exact absurd hlt (Nat.not_lt.mpr (hroot ▸ hrec))
    · exact ⟨e, he, hnum, hrec⟩

/-- The stack down to a root is the component of the root. -/
theorem Sound.mem_component_iff (h : Sound g s) (htrail : s.trail = (a, []) :: rest)
    (hroot : s.low a = s.number a) (hstack : s.stack = above ++ a :: below) {b : String} :
    b ∈ a :: above ↔ g.Connected a b := by
  have hnodup := h.layout.nodup
  rw [hstack] at hnodup
  obtain ⟨_, hlower, hapart⟩ := List.nodup_append.mp hnodup
  rw [h.connected_iff htrail hroot hstack, hstack]
  constructor
  · intro hb
    rcases List.mem_cons.mp hb with rfl | hb
    · exact ⟨List.mem_append_right above List.mem_cons_self, (List.nodup_cons.mp hlower).1⟩
    · exact ⟨List.mem_append_left _ hb, fun hmem =>
        hapart b hb b (List.mem_cons_of_mem a hmem) rfl⟩
  · rintro ⟨hb, hout⟩
    rcases List.mem_append.mp hb with hb | hb
    · exact List.mem_cons_of_mem a hb
    · rcases List.mem_cons.mp hb with rfl | hb
      · exact List.mem_cons_self
      · exact absurd hb hout

theorem Sound.nodup_component (h : Sound g s) (hstack : s.stack = above ++ a :: below) :
    (a :: above).Nodup := by
  have hnodup := h.layout.nodup
  rw [hstack] at hnodup
  obtain ⟨habove, _, hapart⟩ := List.nodup_append.mp hnodup
  exact List.nodup_cons.mpr ⟨fun hmem => hapart a hmem a List.mem_cons_self rfl, habove⟩

/-- A component has a cycle if it has a second member or if its root refers to itself. -/
theorem Sound.component_cyclic_iff (h : Sound g s) (htrail : s.trail = (a, []) :: rest)
    (hroot : s.low a = s.number a) (hstack : s.stack = above ++ a :: below) :
    1 < (a :: above).length ∨ (g.dependencies a).contains a = true ↔ TransGen g.Refers a a := by
  rw [on_cycle_iff, List.contains_iff_mem]
  refine or_congr ⟨fun hlong => ?_, ?_⟩ Iff.rfl
  · obtain ⟨b, hb⟩ := List.exists_mem_of_length_pos (Nat.lt_of_succ_lt_succ hlong)
    exact ⟨b, fun hsame => (List.nodup_cons.mp (h.nodup_component hstack)).1 (hsame ▸ hb),
      (h.mem_component_iff htrail hroot hstack).mp (List.mem_cons_of_mem a hb)⟩
  · rintro ⟨b, hne, hb⟩
    have hmember := (h.mem_component_iff htrail hroot hstack).mpr hb
    have hmem := (List.mem_cons.mp hmember).resolve_left hne
    exact Nat.succ_lt_succ (List.length_pos_of_mem hmem)

/-- When a component is complete, a path through it is reported if it has a cycle. -/
theorem Sound.reported_close (h : Sound g s) (htrail : s.trail = (a, []) :: rest)
    (hroot : s.low a = s.number a) (hstack : s.stack = above ++ a :: below) :
    Reported g { s with
      trail := rest
      stack := below
      paths := if 1 < (a :: above).length ∨ (g.dependencies a).contains a
        then s.paths ++ [g.cyclePath (a :: above)] else s.paths } := by
  have hmembers : ∀ b, b ∈ a :: above ↔ g.Connected a b :=
    fun _ => h.mem_component_iff htrail hroot hstack
  have hcondition := h.component_cyclic_iff htrail hroot hstack
  have ha : a ∈ s.stack := hstack ▸ List.mem_append_right above List.mem_cons_self
  have hcompleted := h.completed_close_iff htrail hroot hstack
  by_cases hcycle : TransGen g.Refers a a
  · rw [if_pos (hcondition.mpr hcycle)]
    obtain ⟨hcircuit, hpath⟩ :=
      isCircuit_cyclePath (h.nodup_component hstack) (h.layout.met a ha).1 hmembers hcycle
    refine ⟨fun path hmem => ?_, fun b hb hbcycle => ?_, ?_⟩
    · rcases List.mem_append.mp hmem with hold | hnew
      · obtain ⟨hold, hbefore⟩ := h.reported.circuits path hold
        exact ⟨hold, fun b hb => (hcompleted _ b).mpr (.inl (hbefore b hb))⟩
      · rw [List.mem_singleton.mp hnew]
        exact ⟨hcircuit, fun b hb =>
          (hcompleted _ b).mpr (.inr ((hmembers b).mp ((hpath b).mp hb)))⟩
    · rcases (hcompleted _ b).mp hb with hold | hnew
      · obtain ⟨path, hmem, hin⟩ := h.reported.complete b hold hbcycle
        exact ⟨path, List.mem_append_left _ hmem, hin⟩
      · exact ⟨_, List.mem_append_right _ (List.mem_singleton.mpr rfl),
          (hpath b).mpr ((hmembers b).mpr hnew)⟩
    · refine List.pairwise_append.mpr ⟨h.reported.disjoint, List.pairwise_singleton _ _, ?_⟩
      intro path hmem other hother b hb hb'
      rw [List.mem_singleton.mp hother, hpath, hmembers,
        h.connected_iff htrail hroot hstack] at hb'
      exact ((h.reported.circuits path hmem).2 b hb).2 hb'.1
  · rw [if_neg (mt hcondition.mp hcycle)]
    refine ⟨fun path hmem => ?_, fun b hb hbcycle => ?_, h.reported.disjoint⟩
    · obtain ⟨hold, hbefore⟩ := h.reported.circuits path hmem
      exact ⟨hold, fun b hb => (hcompleted _ b).mpr (.inl (hbefore b hb))⟩
    · rcases (hcompleted _ b).mp hb with hold | hnew
      · exact h.reported.complete b hold hbcycle
      · exact absurd (hnew.symm.on_cycle hbcycle) hcycle

/-- A root is left with its component. -/
theorem Sound.close (h : Sound g s) (htrail : s.trail = (a, []) :: rest)
    (hroot : s.low a = s.number a) :
    Sound g (({ s with trail := rest } : Survey).close g a) := by
  have ha : a ∈ s.stack := by
    refine h.layout.mem_stack ?_
    rw [followed_cons htrail]
    exact List.mem_cons_self
  obtain ⟨above, below, hstack, habove⟩ := List.eq_append_cons_of_mem ha
  have hclosed := close_eq (g := g) (s := { s with trail := rest }) hstack habove
  rw [hclosed]
  exact ⟨h.layout.close htrail hstack _, h.thorough_close htrail hroot hstack _,
    fun b c hb hrefers => (h.looked b c hb hrefers).imp_right (pending_iff_rest htrail).mp,
    h.reported_close htrail hroot hstack⟩

/-- An address is left once what it reaches has been handed down. -/
theorem Sound.finish (h : Sound g s) (htrail : s.trail = (a, []) :: rest)
    (hparent : ∀ p ∈ (rest.map Prod.fst).head?, s.low p ≤ s.low a) :
    Sound g (if s.low a = s.number a then ({ s with trail := rest } : Survey).close g a
      else { s with trail := rest }) := by
  split
  · next hroot => exact h.close htrail hroot
  · next hlow => exact h.retire htrail hlow hparent

/-- An address is left when all its references have been looked at. -/
theorem Sound.leave (h : Sound g s) (htrail : s.trail = (a, []) :: rest) :
    Sound g (({ s with trail := rest } : Survey).leave g a) := by
  have hlast := followed_cons htrail
  have ha : a ∈ s.followed := hlast ▸ List.mem_cons_self
  cases rest with
  | nil => exact h.finish htrail fun p hp => by simp at hp
  | cons frame others =>
    obtain ⟨p, later⟩ := frame
    have hp : p ∈ s.followed := hlast ▸ List.mem_cons_of_mem a List.mem_cons_self
    have hlt : s.number p < s.number a := h.layout.lt_of_followed hlast List.mem_cons_self
    have hne : p ≠ a := fun hsame => Nat.ne_of_lt hlt (congrArg s.number hsame)
    obtain ⟨b, hb, hlow, _, hway⟩ := h.layout.low a ha
    have hdown := h.layout.down p hp a (h.layout.mem_stack ha) (Nat.le_of_lt hlt)
    have hlowered := h.lower hp hb (hdown.trans hway)
    rw [hlow] at hlowered
    refine hlowered.finish htrail fun q hq => ?_
    cases Option.mem_some_iff.mp hq
    rw [low_lower_self, low_lower_of_ne _ hne]
    exact Nat.min_le_right _ _

end Leave

/-! ## A whole search -/

/-- Every step of a search is sound. -/
theorem Sound.step (hinside : ∀ a b, g.Refers a b → b ∈ g.addresses) (h : Sound g s)
    {later : Survey} (hstep : s.step g = some later) : Sound g later := by
  unfold Survey.step at hstep
  split at hstep
  · cases hstep
  · rename_i a rest htrail
    cases hstep
    exact h.leave htrail
  · rename_i a x pending rest htrail
    have hlast : a ∈ s.followed := by
      rw [followed, htrail]
      exact List.mem_cons_self
    have hrefers : g.Refers a x := by
      refine h.thorough.pending a x ⟨x :: pending, ?_, List.mem_cons_self⟩
      rw [htrail]
      exact List.mem_cons_self
    simp only [Bool.cond_eq_ite] at hstep
    split at hstep
    · rename_i hx
      cases hstep
      exact h.descend htrail (List.contains_iff_mem.mp hx)
    · rename_i hx
      have hmet : s.Met g x :=
        ⟨hinside a x hrefers, fun hmem => hx (List.contains_iff_mem.mpr hmem)⟩
      split at hstep
      · rename_i hstack
        cases hstep
        have hstack := List.contains_iff_mem.mp hstack
        refine (h.lower hlast hstack (.single hrefers)).advance htrail hmet fun _ => ?_
        rw [low_lower_self]
        exact Nat.min_le_right _ _
      · rename_i hstack
        cases hstep
        exact h.advance htrail hmet fun hmem => absurd (List.contains_iff_mem.mpr hmem) hstack

/-- No address is met twice. -/
theorem step_remaining {later : Survey} (hstep : s.step g = some later) :
    ∀ a ∈ later.remaining, a ∈ s.remaining := by
  unfold Survey.step at hstep
  split at hstep
  · cases hstep
  · cases hstep
    rw [leave_remaining]
    exact fun a ha => ha
  · simp only [Bool.cond_eq_ite] at hstep
    split at hstep
    · cases hstep
      exact fun a ha => List.mem_of_mem_erase ha
    · split at hstep <;> cases hstep <;> exact fun a ha => ha

theorem trail_of_step_eq_none (hstep : s.step g = none) : s.trail = [] := by
  unfold Survey.step at hstep
  split at hstep
  · assumption
  · cases hstep
  · simp only [Bool.cond_eq_ite] at hstep
    split at hstep
    · cases hstep
    · split at hstep <;> cases hstep

/-- A search ends soundly, with nothing on the trail. -/
theorem Sound.explore (hinside : ∀ a b, g.Refers a b → b ∈ g.addresses) (h : Sound g s) :
    Sound g (s.explore g) ∧ (s.explore g).trail = []
      ∧ ∀ a ∈ (s.explore g).remaining, a ∈ s.remaining := by
  induction s using explore.induct g with
  | case1 s hstep =>
    rw [explore_of_step_eq_none hstep]
    exact ⟨h, trail_of_step_eq_none hstep, fun a ha => ha⟩
  | case2 s later hstep ih =>
    obtain ⟨hsound, htrail, hremaining⟩ := ih (h.step hinside hstep)
    rw [explore_of_step_eq_some hstep]
    exact ⟨hsound, htrail, fun a ha => step_remaining hstep a (hremaining a ha)⟩

/-- A search from one declaration after another meets them all. -/
theorem Sound.visit (hinside : ∀ a b, g.Refers a b → b ∈ g.addresses) (h : Sound g s)
    (htrail : s.trail = []) (addresses : List String) :
    Sound g (addresses.foldl (Survey.visit g) s)
      ∧ (addresses.foldl (Survey.visit g) s).trail = []
      ∧ ∀ a ∈ (addresses.foldl (Survey.visit g) s).remaining, a ∈ s.remaining ∧ a ∉ addresses := by
  induction addresses generalizing s with
  | nil => exact ⟨h, htrail, fun a ha => ⟨ha, List.not_mem_nil⟩⟩
  | cons x rest ih =>
    have hvisit : Sound g (s.visit g x) ∧ (s.visit g x).trail = []
        ∧ ∀ a ∈ (s.visit g x).remaining, a ∈ s.remaining ∧ a ≠ x := by
      unfold Survey.visit
      rw [Bool.cond_eq_ite]
      split
      · rename_i hx
        have hx := List.contains_iff_mem.mp hx
        have hnone : ∀ a, a ∉ s.followed := fun a ha => by
          rw [followed, htrail] at ha
          exact List.not_mem_nil ha
        have hentered := Sound.enter h.layout h.thorough h.reported hx
          (fun a ha => absurd ha (hnone a))
          (fun a b ha hrefers => (h.looked a b ha hrefers).imp_right Or.inl)
        obtain ⟨hsound, hend, hremaining⟩ := hentered.explore hinside
        refine ⟨hsound, hend, fun a ha => ⟨List.mem_of_mem_erase (hremaining a ha), ?_⟩⟩
        exact fun hsame => h.layout.fresh.not_mem_erase (hsame ▸ hremaining a ha)
      · rename_i hx
        exact ⟨h, htrail, fun a ha => ⟨ha, fun hsame =>
          hx (List.contains_iff_mem.mpr (hsame ▸ ha))⟩⟩
    obtain ⟨hsound, hend, hremaining⟩ := hvisit
    obtain ⟨hlast, hlastEnd, hlater⟩ := ih hsound hend
    refine ⟨hlast, hlastEnd, fun a ha => ?_⟩
    obtain ⟨hbefore, houtside⟩ := hlater a ha
    refine ⟨(hremaining a hbefore).1, fun hmem => ?_⟩
    exact (List.mem_cons.mp hmem).elim (hremaining a hbefore).2 houtside

end Survey

/-- The search over all declarations is sound, and completes them all. -/
theorem sound_survey (hdistinct : g.addresses.Nodup)
    (hinside : ∀ a b, g.Refers a b → b ∈ g.addresses) :
    Survey.Sound g g.survey ∧ ∀ a ∈ g.addresses, g.survey.Completed g a := by
  obtain ⟨hsound, htrail, hremaining⟩ :=
    (Survey.sound_start hdistinct).visit hinside rfl g.addresses
  refine ⟨hsound, fun a ha => ⟨⟨ha, fun hmem => (hremaining a hmem).2 ha⟩, fun hmem => ?_⟩⟩
  obtain ⟨b, hb, _⟩ := hsound.layout.up a hmem
  rw [Survey.followed, htrail] at hb
  exact List.not_mem_nil hb

end Graph

end Groundplan
