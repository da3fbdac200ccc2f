import Groundplan.Proofs.Graph.Cycle
import Groundplan.Proofs.Table
import Mathlib.Data.List.Chain
import Mathlib.Order.Lattice.Nat

/-!
# What Searches Along References Find

Against the references, a search collects exactly the declarations from which some given one can be
reached.  Along the references, a breadth-first search comes to every declaration on a shortest
way: what waits to be looked at is in the order of its distance from the start, and at most one
step apart.  Since an address is noted one step behind the one it was come to from, going back
along the notes ends at the start after as many steps as the distance has.

## Main Definitions

- `Graph.IsPath`: paths of a relation
- `Graph.distance`: the length of a shortest way
- `Graph.Noted`, `Graph.Searching`: what a breadth-first search keeps

## Main Statements

- `Graph.dependentsClosure_exact`: what refers to some declarations, directly or through others
- `Graph.Searching.meet`, `Graph.Searching.run`: what one step and all steps of a search preserve
- `Graph.Noted.retrace`: going back along the notes
- `Graph.chain_shortest`: the search finds a shortest path, or there is none
-/

namespace Groundplan

namespace Graph

open Relation

variable {declarations : List Declaration} {g : Graph}

/-! ## What refers to some declarations -/

/-- The closure of some addresses has every declaration once from which one of the addresses can
be reached by one reference or more.  So an address itself is in it just if it refers, directly or
through others, to one of the addresses. -/
theorem dependentsClosure_exact (hgraph : ofDeclarations declarations = .ok g)
    (starts : List String) :
    (g.dependentsClosure starts).Nodup
      ∧ ∀ a, a ∈ g.dependentsClosure starts
          ↔ ∃ b ∈ starts, TransGen (RefersAmong declarations) a b := by
  have hdistinct := (of_ofDeclarations hgraph).2.2
  constructor
  · exact nodup_dependentsFrom hdistinct List.nodup_nil
  · intro a
    rw [mem_dependentsClosure_iff_exists hdistinct, refers_eq_refersAmong hgraph]

/-- A value refers into a circle of two others, of which the first one refers to a last value as
well.  Of the given addresses the one on the circle can be reached from itself; the last one cannot,
and neither can an address where nothing is declared. -/
theorem dependentsClosure_exact_circle :
    let ref : String → Expr := fun name => .ref none ⟨.localName, name⟩
    let value : String → Expr → Declaration := fun name e => .localValue ⟨name, e, none⟩
    let declarations := [value "a" (ref "b"), value "b" (.binary none .add (ref "c") (ref "d")),
      value "c" (ref "b"), value "d" (.literal none .null)]
    let starts := ["local.d", "local.b", "local.e"]
    ∃ g, ofDeclarations declarations = .ok g
      ∧ (∃ b ∈ starts, TransGen (RefersAmong declarations) "local.b" b)
      ∧ (∃ b ∈ starts, TransGen (RefersAmong declarations) "local.a" b)
      ∧ ¬ ∃ b ∈ starts, TransGen (RefersAmong declarations) "local.d" b := by
  intro ref value declarations starts
  let g : Graph := ⟨[⟨value "a" (ref "b"), ["local.b"], []⟩,
    ⟨value "b" (.binary none .add (ref "c") (ref "d")), ["local.c", "local.d"], []⟩,
    ⟨value "c" (ref "b"), ["local.b"], []⟩, ⟨value "d" (.literal none .null), [], []⟩]⟩
  have hgraph : ofDeclarations declarations = .ok g := by
    cbv
  have hclosure : g.dependentsClosure starts = ["local.b", "local.a", "local.c"] := by
    cbv
  have hexact := (dependentsClosure_exact hgraph starts).2
  simp only [hclosure] at hexact
  refine ⟨g, hgraph, (hexact _).mp ?_, (hexact _).mp ?_, (hexact _).not.mp ?_⟩ <;> decide

/-! ## Paths and distances -/

/-- A path leads from the one address to the other, each address on it being related to the next
one. -/
structure IsPath (R : String → String → Prop) (start target : String) (path : List String) :
    Prop where
  first : path.head? = some start
  last : path.getLast? = some target
  linked : path.IsChain R

/-- A way of so many steps leads from the start to an address. -/
inductive Steps (R : String → String → Prop) (start : String) : Nat → String → Prop where
  | start : Steps R start 0 start
  | step {n : Nat} {a b : String} : Steps R start n a → R a b → Steps R start (n + 1) b

/-- The number of steps of a shortest way from the start to an address. -/
noncomputable def distance (R : String → String → Prop) (start a : String) : Nat :=
  sInf {n | Steps R start n a}

section Distance

variable {R : String → String → Prop} {start a b : String} {n : Nat}

theorem Steps.head (hab : R start a) (h : Steps R a n b) : Steps R start (n + 1) b := by
  induction h with
  | start => exact .step .start hab
  | step _ hstep ih => exact .step ih hstep

theorem Steps.distance_le (h : Steps R start n a) : distance R start a ≤ n :=
  Nat.sInf_le h

/-- Where some way leads, one leads that has as many steps as the distance. -/
theorem Steps.shortest (h : Steps R start n a) : Steps R start (distance R start a) a :=
  Nat.sInf_mem (s := {m | Steps R start m a}) ⟨n, h⟩

@[simp]
theorem distance_self (R : String → String → Prop) (start : String) :
    distance R start start = 0 :=
  Nat.le_zero.mp Steps.start.distance_le

theorem Steps.reflTransGen (h : Steps R start n a) : ReflTransGen R start a := by
  induction h with
  | start => exact .refl
  | step _ hstep ih => exact .tail ih hstep

/-- A path is a way with one step less than it has addresses. -/
theorem IsPath.steps {path : List String} (h : IsPath R start a path) :
    ∃ n, path.length = n + 1 ∧ Steps R start n a := by
  obtain ⟨hfirst, hlast, hlinked⟩ := h
  induction path generalizing start with
  | nil => cases hfirst
  | cons x rest ih =>
    obtain rfl : x = start := Option.some.inj hfirst
    cases rest with
    | nil =>
      obtain rfl : x = a := Option.some.inj hlast
      exact ⟨0, rfl, .start⟩
    | cons y rest =>
      obtain ⟨hxy, hrest⟩ := List.isChain_cons_cons.mp hlinked
      obtain ⟨n, hlength, hsteps⟩ := ih rfl (by simpa using hlast) hrest
      exact ⟨n + 1, by rw [List.length_cons, hlength], hsteps.head hxy⟩

/-- No path is shorter than the distance. -/
theorem IsPath.distance_lt {path : List String} (h : IsPath R start a path) :
    distance R start a < path.length := by
  obtain ⟨n, hlength, hsteps⟩ := h.steps
  have hle := hsteps.distance_le
  omega

end Distance

/-! ## Notes of where an address was come to from -/

section Notes

variable {start target : String} {previous : Table String String} {a b : String}

/-- An address is the start, or it has been come to. -/
def Met (start : String) (previous : Table String String) (a : String) : Prop :=
  a = start ∨ Table.has previous a = true

theorem met_put_iff : Met start (Table.put previous b a) target
    ↔ target = b ∨ Met start previous target := by
  unfold Met
  rw [Table.has_put_iff]
  constructor
  · rintro (hstart | hb | hold)
    · exact .inr (.inl hstart)
    · exact .inl hb.symm
    · exact .inr (.inr hold)
  · rintro (hb | hstart | hold)
    · exact .inr (.inl hb.symm)
    · exact .inl hstart
    · exact .inr (.inr hold)

/-- Whatever has been come to was come to by a reference, one step behind an address that had been
come to before. -/
structure Noted (g : Graph) (start : String) (previous : Table String String) : Prop where
  /-- The start is not come to. -/
  fresh : Table.has previous start = false
  behind : ∀ a b, Table.get? previous b = some a → Met start previous a ∧ g.Refers a b
    ∧ distance g.Refers start b = distance g.Refers start a + 1

namespace Noted

/-- What has been come to was come to from somewhere. -/
theorem exists_behind (h : Noted g start previous) (hmet : Met start previous b)
    (hne : b ≠ start) : ∃ a, Table.get? previous b = some a ∧ Met start previous a ∧ g.Refers a b
      ∧ distance g.Refers start b = distance g.Refers start a + 1 := by
  obtain ⟨a, ha⟩ := Option.isSome_iff_exists.mp (hmet.resolve_left hne)
  exact ⟨a, ha, h.behind a b ha⟩

/-- A shortest way leads to whatever has been come to. -/
theorem steps (h : Noted g start previous) (hmet : Met start previous a) :
    Steps g.Refers start (distance g.Refers start a) a := by
  induction hn : distance g.Refers start a generalizing a with
  | zero =>
    by_cases hstart : a = start
    · rw [hstart]
      exact .start
    · obtain ⟨_, _, _, _, hfurther⟩ := h.exists_behind hmet hstart
      omega
  | succ n ih =>
    by_cases hstart : a = start
    · rw [hstart, distance_self] at hn
      omega
    · obtain ⟨p, _, hp, hrefers, hfurther⟩ := h.exists_behind hmet hstart
      exact .step (ih hp (by omega)) hrefers

/-- One more address is noted, one step behind one that has been come to. -/
theorem put (h : Noted g start previous) (ha : Met start previous a)
    (hb : ¬ Met start previous b) (hrefers : g.Refers a b)
    (hfurther : distance g.Refers start b = distance g.Refers start a + 1) :
    Noted g start (Table.put previous b a) := by
  have hne : b ≠ start := fun hstart => hb (.inl hstart)
  constructor
  · unfold Table.has
    rw [Table.get?_put_of_ne _ _ hne]
    exact h.fresh
  · intro p x hp
    rw [Table.get?_put] at hp
    split at hp
    · next hx =>
      cases hp
      exact ⟨met_put_iff.mpr (.inr ha), hx ▸ hrefers, hx ▸ hfurther⟩
    · obtain ⟨hmet, hbehind⟩ := h.behind p x hp
      exact ⟨met_put_iff.mpr (.inr hmet), hbehind⟩

/-- Going back from an address gives a path from the start, on which the distance grows with every
step.  It is enough that the notes are there for the addresses that are no further away. -/
theorem retrace (h : Noted g start previous) {n : Nat} (ha : Met start previous a)
    (hn : distance g.Refers start a = n) {notes : Table String String}
    (hnotes : ∀ b, distance g.Refers start b ≤ n → Table.get? notes b = Table.get? previous b)
    (way : List String) :
    ∃ path, Graph.retrace start notes a way = some (path ++ way) ∧ IsPath g.Refers start a path
      ∧ path.length = n + 1
      ∧ path.Pairwise (fun x y => distance g.Refers start x < distance g.Refers start y)
      ∧ ∀ x ∈ path, distance g.Refers start x ≤ n := by
  induction n generalizing a notes way with
  | zero =>
    -- Only the start is at no distance.
    obtain rfl : a = start := by
      by_contra hne
      obtain ⟨_, _, _, _, hfurther⟩ := h.exists_behind ha hne
      omega
    refine ⟨[a], ?_, ⟨rfl, rfl, .singleton a⟩, rfl, List.pairwise_singleton _ _, by simp⟩
    rw [retrace_self, List.singleton_append]
  | succ n ih =>
    have hne : a ≠ start := by
      rintro rfl
      rw [distance_self] at hn
      omega
    obtain ⟨p, hp, hmet, hrefers, hfurther⟩ := h.exists_behind ha hne
    have hfound : Table.get? notes a = some p := by rw [hnotes a (by omega), hp]
    -- The note that has been used is further away than all that are still needed.
    have hkept : ∀ b, distance g.Refers start b ≤ n →
        Table.get? (Table.erase notes a) b = Table.get? previous b := by
      intro b hb
      have hother : a ≠ b := by
        rintro rfl
        omega
      rw [Table.get?_erase_of_ne notes hother, hnotes b (by omega)]
    obtain ⟨path, hpath, ⟨hfirst, hlast, hlinked⟩, hlength, hgrows, hnear⟩ :=
      ih hmet (by omega) hkept (a :: way)
    refine ⟨path ++ [a], ?_, ⟨?_, ?_, ?_⟩, ?_, ?_, ?_⟩
    · rw [retrace_of_get? hne hfound, hpath, List.append_assoc, List.singleton_append]
    · rw [List.head?_append, hfirst, Option.some_or]
    · simp
    · apply List.isChain_append.mpr
      refine ⟨hlinked, .singleton a, fun x hx y hy => ?_⟩
      rw [hlast] at hx
      cases hx
      cases hy
      exact hrefers
    · rw [List.length_append, hlength, List.length_singleton]
    · refine List.pairwise_append.mpr ⟨hgrows, List.pairwise_singleton _ _, fun x hx y hy => ?_⟩
      have hle := hnear x hx
      rw [List.mem_singleton.mp hy]
      omega
    · intro x hx
      rcases List.mem_append.mp hx with hx | hx
      · exact Nat.le_succ_of_le (hnear x hx)
      · rw [List.mem_singleton.mp hx]
        omega

end Noted

/-! ## Breadth-first search -/

/-- What a search keeps that has not come to its target.  In front are the addresses whose
references have not all been followed. -/
structure Searching (g : Graph) (start target : String) (previous : Table String String)
    (front : List String) : Prop where
  noted : Noted g start previous
  met : ∀ a ∈ front, Met start previous a
  /-- The addresses in front are in the order of their distance. -/
  ordered : front.Pairwise fun a b => distance g.Refers start a ≤ distance g.Refers start b
  /-- Nothing is more than a step further away than an address in front. -/
  spread : ∀ a ∈ front, ∀ b, Met start previous b →
    distance g.Refers start b ≤ distance g.Refers start a + 1
  /-- All references have been followed that do not come from the front. -/
  followed : ∀ a, Met start previous a → a ∉ front → ∀ b, g.Refers a b → Met start previous b
  unmet : ¬ Met start previous target

namespace Searching

theorem begins (hne : start ≠ target) : Searching g start target [] [start] where
  noted := ⟨rfl, fun a b hb => nomatch hb⟩
  met a ha := .inl (List.mem_singleton.mp ha)
  ordered := List.pairwise_singleton _ _
  spread a ha b hb := by
    obtain rfl := hb.resolve_right (by simp [Table.has])
    simp
  followed a ha hfront := by
    obtain rfl := ha.resolve_right (by simp [Table.has])
    exact absurd List.mem_cons_self hfront
  unmet h := by
    rcases h with heq | hhas
    · exact hne heq.symm
    · cases hhas

variable {front : List String} {s : Search}

/-- What is no further away than the first address in front has been come to. -/
theorem met_of_steps (h : Searching g start target previous (a :: front)) {n : Nat}
    (hsteps : Steps g.Refers start n b) (hn : n ≤ distance g.Refers start a) :
    Met start previous b := by
  induction hsteps with
  | start => exact .inl rfl
  | @step n x b hsteps hrefers ih =>
    -- The address before it is nearer than the whole front, so its references have been followed.
    have hnear := hsteps.distance_le
    refine h.followed x (ih (by omega)) (fun hfront => ?_) b hrefers
    rcases List.mem_cons.mp hfront with rfl | hfront
    · omega
    · have hle := (List.pairwise_cons.mp h.ordered).1 x hfront
      omega

/-- What is come to from the first address in front is one step further away. -/
theorem distance_eq (h : Searching g start target previous (a :: front)) (hrefers : g.Refers a b)
    (hb : ¬ Met start previous b) :
    distance g.Refers start b = distance g.Refers start a + 1 := by
  have hsteps := (h.noted.steps (h.met a List.mem_cons_self)).step hrefers
  apply Nat.le_antisymm
  · exact hsteps.distance_le
  · by_contra hnear
    exact hb (h.met_of_steps hsteps.shortest (by omega))

/-- A new address that is not the target comes last in front. -/
theorem put (h : Searching g start target previous (a :: front)) (hrefers : g.Refers a b)
    (hb : ¬ Met start previous b) (hne : b ≠ target) :
    Searching g start target (Table.put previous b a) (a :: (front ++ [b])) := by
  have ha := h.met a List.mem_cons_self
  have hfurther := h.distance_eq hrefers hb
  have hbound := h.spread a List.mem_cons_self
  have hfirst := (List.pairwise_cons.mp h.ordered).1
  have hfront : ∀ x ∈ a :: (front ++ [b]), x ∈ a :: front ∨ x = b := by
    intro x hx
    simpa [or_assoc] using hx
  constructor
  · exact h.noted.put ha hb hrefers hfurther
  · intro x hx
    rcases hfront x hx with hold | rfl
    · exact met_put_iff.mpr (.inr (h.met x hold))
    · exact met_put_iff.mpr (.inl rfl)
  · show ((a :: front) ++ [b]).Pairwise _
    refine List.pairwise_append.mpr ⟨h.ordered, List.pairwise_singleton _ _, fun x hx y hy => ?_⟩
    rw [List.mem_singleton.mp hy, hfurther]
    exact hbound x (h.met x hx)
  · -- All that has been come to is a step further away than the first address at most, which is
    -- the nearest one.
    intro x hx y hy
    have hnear : distance g.Refers start a ≤ distance g.Refers start x := by
      rcases hfront x hx with hold | rfl
      · rcases List.mem_cons.mp hold with rfl | hold
        · exact Nat.le_refl _
        · exact hfirst x hold
      · omega
    rcases met_put_iff.mp hy with rfl | hold
    · omega
    · have hle := hbound y hold
      omega
  · intro x hx hout y hxy
    have hout' : x ∉ a :: front := fun hold => hout (by
      rcases List.mem_cons.mp hold with rfl | hold
      · exact List.mem_cons_self
      · exact List.mem_cons_of_mem a (List.mem_append_left [b] hold))
    rcases met_put_iff.mp hx with rfl | hold
    · exact absurd (List.mem_cons_of_mem a (by simp)) hout
    · exact met_put_iff.mpr (.inr (h.followed x hold hout' y hxy))
  · intro htarget
    rcases met_put_iff.mp htarget with heq | hold
    · exact hne heq.symm
    · exact h.unmet hold

/-- Coming to an address keeps what a search keeps, or ends it with a note of the target. -/
theorem meet (h : Searching g start target s.previous (a :: s.pending)) (hrefers : g.Refers a b) :
    (∃ s', s.meet start target a b = .ok s'
        ∧ Searching g start target s'.previous (a :: s'.pending) ∧ Met start s'.previous b
        ∧ ∀ x, Met start s.previous x → Met start s'.previous x)
      ∨ ∃ previous, s.meet start target a b = .error previous ∧ Noted g start previous
          ∧ Met start previous target := by
  unfold Search.meet
  by_cases hb : Met start s.previous b
  · left
    refine ⟨s, if_pos ?_, h, hb, fun x hx => hx⟩
    rcases hb with heq | hhas
    · simp [heq]
    · simp [hhas]
  · have hnew : ¬ ((Table.has s.previous b || decide (b = start)) = true) := by
      intro hold
      rcases Bool.or_eq_true_iff.mp hold with hhas | heq
      · exact hb (.inr hhas)
      · exact hb (.inl (of_decide_eq_true heq))
    rw [if_neg hnew]
    dsimp only
    by_cases htarget : b = target
    · right
      refine ⟨_, if_pos htarget, ?_, met_put_iff.mpr (.inl htarget.symm)⟩
      exact h.noted.put (h.met a List.mem_cons_self) hb hrefers (h.distance_eq hrefers hb)
    · left
      refine ⟨_, if_neg htarget, h.put hrefers hb htarget, met_put_iff.mpr (.inl rfl), ?_⟩
      exact fun x hx => met_put_iff.mpr (.inr hx)

/-- After looking at some references, all of them have been followed, or the target is noted. -/
theorem meetAll (h : Searching g start target s.previous (a :: s.pending)) {bs : List String}
    (hrefers : ∀ b ∈ bs, g.Refers a b) :
    (∃ s', bs.foldlM (Search.meet start target a) s = .ok s'
        ∧ Searching g start target s'.previous (a :: s'.pending)
        ∧ (∀ b ∈ bs, Met start s'.previous b)
        ∧ ∀ x, Met start s.previous x → Met start s'.previous x)
      ∨ ∃ previous, bs.foldlM (Search.meet start target a) s = .error previous
          ∧ Noted g start previous ∧ Met start previous target := by
  induction bs generalizing s with
  | nil => exact .inl ⟨s, rfl, h, fun b hb => absurd hb List.not_mem_nil, fun x hx => hx⟩
  | cons b bs ih =>
    obtain ⟨hb, hbs⟩ := List.forall_mem_cons.mp hrefers
    simp only [List.foldlM_cons]
    rcases h.meet hb with ⟨s', hmeet, hs', hmet, hkept⟩ | ⟨previous, hmeet, hfound⟩
    · rw [hmeet]
      rcases ih hs' hbs with ⟨s'', hmeets, hs'', hmets, hkept'⟩ | hfound
      · left
        refine ⟨s'', hmeets, hs'', List.forall_mem_cons.mpr ⟨hkept' b hmet, hmets⟩, ?_⟩
        exact fun x hx => hkept' x (hkept x hx)
      · exact .inr hfound
    · rw [hmeet]
      exact .inr ⟨previous, rfl, hfound⟩

/-- The first address in front may be left once all its references have been followed. -/
theorem leave (h : Searching g start target previous (a :: front))
    (hall : ∀ b, g.Refers a b → Met start previous b) :
    Searching g start target previous front where
  noted := h.noted
  met x hx := h.met x (List.mem_cons_of_mem a hx)
  ordered := (List.pairwise_cons.mp h.ordered).2
  spread x hx := h.spread x (List.mem_cons_of_mem a hx)
  followed x hx hout := by
    by_cases heq : x = a
    · exact heq ▸ hall
    · exact h.followed x hx fun hfront => hout ((List.mem_cons.mp hfront).resolve_left heq)
  unmet := h.unmet

/-- Nothing can be reached that has not been come to, once all references have been followed. -/
theorem not_reachable (h : Searching g start target previous []) :
    ¬ ReflTransGen g.Refers start target := by
  have hall : ∀ b, ReflTransGen g.Refers start b → Met start previous b := by
    intro b hreach
    induction hreach with
    | refl => exact .inl rfl
    | tail _ hstep ih => exact h.followed _ ih List.not_mem_nil _ hstep
  exact fun hreach => h.unmet (hall target hreach)

/-- A search ends with a note of the target, or the target cannot be reached. -/
theorem run (h : Searching g start target s.previous s.pending) :
    (s.run g start target = none ∧ ¬ ReflTransGen g.Refers start target)
      ∨ ∃ previous, s.run g start target = some previous ∧ Noted g start previous
          ∧ Met start previous target := by
  induction s using Search.run.induct g start target with
  | case1 s hnone =>
    rw [hnone] at h
    left
    refine ⟨?_, h.not_reachable⟩
    exact Search.run_of_pending_nil hnone
  | case2 s last pending hbegun previous hmeets =>
    rw [hbegun] at h
    rcases meetAll (s := ⟨s.previous, pending⟩) h fun b hb => hb with
      ⟨later, hgoes, _⟩ | ⟨notes, hends, hnoted, hmet⟩
    · rw [hmeets] at hgoes
      cases hgoes
    · right
      exact ⟨notes, Search.run_of_error hbegun hends, hnoted, hmet⟩
  | case3 s last pending hbegun later hmeets ih =>
    rw [hbegun] at h
    rcases meetAll (s := ⟨s.previous, pending⟩) h fun b hb => hb with
      ⟨later', hgoes, hlater, hall, _⟩ | ⟨notes, hends, _⟩
    · rw [hmeets] at hgoes
      cases hgoes
      rw [Search.run_of_ok hbegun hmeets]
      exact ih (hlater.leave hall)
    · rw [hmeets] at hends
      cases hends

end Searching

/-! ## Shortest paths -/

/-- The search from a declaration always ends with an answer.  There is no path just if the target
is another address that cannot be reached by references; otherwise a path is found from the start
to the target, each declaration on it referring to the next one, without repetitions, and no such
path is shorter. -/
theorem chain_shortest (hgraph : ofDeclarations declarations = .ok g)
    (hstart : ∃ d ∈ declarations, d.address = start) (target : String) :
    ∃ found, g.chain start target = some found
      ∧ (found = none ↔ ¬ TransGen (RefersAmong declarations) start target ∧ target ≠ start)
      ∧ ∀ path, found = some path →
          IsPath (RefersAmong declarations) start target path ∧ path.Nodup
            ∧ ∀ other, IsPath (RefersAmong declarations) start target other →
                path.length ≤ other.length := by
  rw [← refers_eq_refersAmong hgraph]
  by_cases hsame : start = target
  · subst hsame
    refine ⟨some [start], if_pos rfl, by simp, fun path hpath => ?_⟩
    obtain rfl := Option.some.inj hpath
    refine ⟨⟨rfl, rfl, .singleton start⟩, List.nodup_singleton start, fun other hother => ?_⟩
    have hlt := hother.distance_lt
    simpa using Nat.succ_le_of_lt (Nat.lt_of_le_of_lt (Nat.zero_le _) hlt)
  · have hhas : g.has start = true := by
      rw [has_iff_mem_addresses, (of_ofDeclarations hgraph).1, List.mem_map]
      exact hstart
    have hreach : ReflTransGen g.Refers start target ↔ TransGen g.Refers start target := by
      rw [reflTransGen_iff_eq_or_transGen]
      exact or_iff_right fun heq => hsame heq.symm
    rw [chain, if_neg hsame, if_pos hhas]
    rcases Searching.run (s := ⟨[], [start]⟩) (Searching.begins hsame) with
      ⟨hrun, hnone⟩ | ⟨previous, hrun, hnoted, hmet⟩
    · rw [hrun]
      refine ⟨none, rfl, ?_, fun path hpath => nomatch hpath⟩
      simpa [Ne.symm hsame, ← hreach] using hnone
    · rw [hrun]
      obtain ⟨path, hpath, hleads, hlength, hgrows, _⟩ :=
        hnoted.retrace hmet rfl (fun _ _ => rfl) []
      have hway := hreach.mp (hnoted.steps hmet).reflTransGen
      refine ⟨some path, ?_, by simp [hway], fun path' hpath' => ?_⟩
      · dsimp only
        rw [hpath, List.append_nil, Option.map_some]
      · obtain rfl := Option.some.inj hpath'
        refine ⟨hleads, hgrows.imp fun hlt heq => ?_, fun other hother => ?_⟩
        · rw [heq] at hlt
          exact Nat.lt_irrefl _ hlt
        · have hlt := hother.distance_lt
          omega

/-- Values that refer to each other in two circles of different length.  The reference that is
followed first leads to the target by a detour; a value that only refers to others cannot be
reached. -/
theorem chain_shortest_detour :
    let ref : String → Expr := fun name => .ref none ⟨.localName, name⟩
    let value : String → Expr → Declaration := fun name e => .localValue ⟨name, e, none⟩
    let declarations := [value "a" (.binary none .add (ref "b") (ref "c")),
      value "b" (.binary none .add (ref "a") (ref "d")), value "c" (ref "e"), value "d" (ref "e"),
      value "e" (ref "a"), value "f" (ref "e")]
    ∃ g, ofDeclarations declarations = .ok g
      ∧ (∃ d ∈ declarations, d.address = "local.a")
      ∧ g.chain "local.a" "local.e" = some (some ["local.a", "local.c", "local.e"])
      ∧ (∀ other, IsPath (RefersAmong declarations) "local.a" "local.e" other → 3 ≤ other.length)
      ∧ g.chain "local.a" "local.f" = some none
      ∧ ¬ TransGen (RefersAmong declarations) "local.a" "local.f" := by
  intro ref value declarations
  let g : Graph := ⟨[
    ⟨value "a" (.binary none .add (ref "b") (ref "c")), ["local.b", "local.c"], []⟩,
    ⟨value "b" (.binary none .add (ref "a") (ref "d")), ["local.a", "local.d"], []⟩,
    ⟨value "c" (ref "e"), ["local.e"], []⟩, ⟨value "d" (ref "e"), ["local.e"], []⟩,
    ⟨value "e" (ref "a"), ["local.a"], []⟩, ⟨value "f" (ref "e"), ["local.e"], []⟩]⟩
  have hgraph : ofDeclarations declarations = .ok g := by
    cbv
  have hstart : ∃ d ∈ declarations, d.address = "local.a" :=
    ⟨_, List.mem_cons_self, by cbv⟩
  have hpath : g.chain "local.a" "local.e" = some (some ["local.a", "local.c", "local.e"]) := by
    cbv
  have hnone : g.chain "local.a" "local.f" = some none := by
    cbv
  obtain ⟨found, hfound, _, hshortest⟩ := chain_shortest hgraph hstart "local.e"
  rw [hpath] at hfound
  obtain ⟨found', hfound', hunreached, _⟩ := chain_shortest hgraph hstart "local.f"
  rw [hnone] at hfound'
  refine ⟨g, hgraph, hstart, hpath, ?_, hnone, ?_⟩
  · exact (hshortest _ (Option.some.inj hfound).symm).2.2
  · exact (hunreached.mp (Option.some.inj hfound').symm).1

end Notes

end Graph

end Groundplan
