import Groundplan.Proofs.Engine.Reporting

/-!
# Declarations May Complete in Any Order

A pass submits declarations once the dependencies that it also drives have completed, and the
declarations in flight complete in any order and in groups of any size.  Here this is a step
relation.  An invariant links what waits, what is in flight and what has completed: a declaration
waits for exactly those of its dependencies that have not completed.

The loop of the engine is one of the passes that are possible.  It completes the declarations in
flight one by one, the one first that has been submitted first.

## Main Definitions

- `Engine.Drive`, `Engine.Drive.Step`: a pass as far as it has come, and how it goes on
- `Engine.Drive.Linked`: the invariant

## Main Statements

- `Engine.Drive.Linked.advance`: what a step preserves
- `Engine.driveFrom_executes`, `Engine.drive_executes`: the loop of the engine
-/

namespace Groundplan

namespace Engine

open Relation

/-! ## Passes -/

/-- A pass over some declarations, as far as it has come. -/
structure Drive where
  /-- The declarations that wait, each with those dependencies that have not completed. -/
  waiting : Table String (List String)
  /-- The declarations that have been submitted and have not completed. -/
  inFlight : List String
  /-- The declarations that have been submitted so far. -/
  submitted : List String
  /-- The declarations that have completed so far. -/
  completed : List String
  /-- How many failures have been collected. -/
  errors : Nat
  state : State

/-- Declarations are resolved one after another, and none of them meets a fault. -/
inductive Finishes (engine : Engine) : State → List String → State → Prop where
  | nil {s : State} : Finishes engine s [] s
  | cons {s s' s'' : State} {address : String} {rest : List String} {r : Except Stop Value}
      (resolved : runFrom s (engine.resolveNode (.ofAddress address)) = (r, s'))
      (regular : ∀ fault, r ≠ .error (.fault fault)) (later : Finishes engine s' rest s'') :
      Finishes engine s (address :: rest) s''

namespace Drive

/-- Submit the declarations that wait for nothing any more. -/
def submit (d : Drive) : Drive :=
  let ready := Table.keys (d.waiting.filter fun entry => entry.2.isEmpty)
  { d with
    waiting := d.waiting.filter fun entry => !entry.2.isEmpty
    inFlight := d.inFlight ++ ready
    submitted := d.submitted ++ ready }

/-- All declarations wait, each for those of its dependencies that are driven as well. -/
def waitAll (engine : Engine) (s : State) (addresses : List String) : Drive :=
  ⟨addresses.map fun a => (a, Graph.among addresses (engine.graph.dependencies a)), [], [], [], 0, s⟩

/-- A pass that begins. -/
def start (engine : Engine) (s : State) (addresses : List String) : Drive :=
  (waitAll engine s addresses).submit

/-- Declarations that were in flight have completed, and their own failures are collected. -/
def collect (d : Drive) (done : List String) (s : State) : Drive :=
  let own := done.flatMap s.ownFailures
  { d with
    inFlight := Graph.besides done d.inFlight
    completed := d.completed ++ done
    errors := d.errors + own.length
    state := s.report own }

/-- Nothing waits for declarations that have completed. -/
def discard (d : Drive) (done : List String) : Drive :=
  { d with waiting := d.waiting.map fun entry => (entry.1, Graph.besides done entry.2) }

/-- Some declarations have completed.  Once enough failures have been collected, what waits is given
up; otherwise those that wait for nothing else are submitted. -/
def advance (engine : Engine) (d : Drive) (done : List String) (s : State) : Drive :=
  let d := (d.collect done s).discard done
  if engine.isEnough d.errors then { d with waiting := [] } else d.submit

/-- Any declarations that are in flight may complete next. -/
inductive Step (engine : Engine) (d : Drive) : Drive → Prop where
  /-- A declaration in flight has been resolved, and is collected later. -/
  | proceed {a : String} {s : State} (begun : a ∈ d.inFlight)
      (finishes : engine.Finishes d.state [a] s) : Step engine d { d with state := s }
  /-- Any declarations in flight complete together. -/
  | complete {done : List String} {s : State} (nonempty : done ≠ []) (distinct : done.Nodup)
      (begun : ∀ a ∈ done, a ∈ d.inFlight) (finishes : engine.Finishes d.state done s) :
      Step engine d (d.advance engine done s)

/-- The passes that one may have become. -/
def Executes (engine : Engine) : Drive → Drive → Prop :=
  ReflTransGen (Step engine)

end Drive

/-! ## What waits and what is in flight -/

namespace Drive

variable {engine : Engine} {addresses done : List String} {d d' : Drive}

/-- What has completed is no longer waited for, but all that waits still does. -/
theorem keys_discard (d : Drive) (done : List String) (s : State) :
    Table.keys ((d.collect done s).discard done).waiting = Table.keys d.waiting := by
  simp [Drive.discard, Drive.collect, Table.keys, Function.comp_def]

/-- Every declaration waits for what has not completed of its dependencies, or it has been
submitted after them. -/
structure Linked (engine : Engine) (addresses : List String) (d : Drive) : Prop where
  inside : ∀ entry ∈ d.waiting, entry.1 ∈ addresses
  needed : ∀ entry ∈ d.waiting, ∀ x,
    x ∈ entry.2 ↔ engine.graph.Refers entry.1 x ∧ x ∈ addresses ∧ x ∉ d.completed
  once : (Table.keys d.waiting ++ d.submitted).Nodup
  submitted : ∀ a ∈ d.submitted, a ∈ addresses
  released : ∀ a ∈ d.submitted, ∀ x ∈ addresses, engine.graph.Refers a x → x ∈ d.completed
  begun : (d.inFlight ++ d.completed).Perm d.submitted

namespace Linked

/-- What is submitted waits for nothing. -/
theorem mem_ready {entries : Table String (List String)} {a : String}
    (ha : a ∈ Table.keys (entries.filter fun entry => entry.2.isEmpty)) :
    ∃ entry ∈ entries, entry.2 = [] ∧ entry.1 = a := by
  obtain ⟨entry, hentry, rfl⟩ := List.mem_map.mp ha
  obtain ⟨hmem, hempty⟩ := List.mem_filter.mp hentry
  exact ⟨entry, hmem, List.isEmpty_iff.mp hempty, rfl⟩

/-- Submission moves declarations from those that wait to those that have been submitted. -/
theorem keys_submit_perm (d : Drive) :
    (Table.keys d.submit.waiting ++ d.submit.submitted).Perm
      (Table.keys d.waiting ++ d.submitted) := by
  have hsplit : (d.waiting.filter (fun entry => entry.2.isEmpty)
      ++ d.waiting.filter (fun entry => !entry.2.isEmpty)).Perm d.waiting :=
    List.filter_append_perm _ _
  have hkeys : (Table.keys (d.waiting.filter fun entry => entry.2.isEmpty)
      ++ Table.keys (d.waiting.filter fun entry => !entry.2.isEmpty)).Perm
        (Table.keys d.waiting) := by
    rw [Table.keys, Table.keys, ← List.map_append]
    exact hsplit.map Prod.fst
  refine List.Perm.trans ?_ (hkeys.append_right d.submitted)
  show (Table.keys (d.waiting.filter fun entry => !entry.2.isEmpty) ++ (d.submitted ++ _)).Perm _
  rw [← List.append_assoc]
  refine List.perm_append_comm.trans ?_
  rw [List.append_assoc]

theorem submit (h : Linked engine addresses d) : Linked engine addresses d.submit := by
  refine ⟨?_, ?_, ?_, ?_, ?_, ?_⟩
  · exact fun entry hentry => h.inside entry (List.mem_filter.mp hentry).1
  · exact fun entry hentry => h.needed entry (List.mem_filter.mp hentry).1
  · exact (keys_submit_perm d).nodup_iff.mpr h.once
  · intro a ha
    rcases List.mem_append.mp ha with ha | ha
    · exact h.submitted a ha
    · obtain ⟨entry, hentry, _, rfl⟩ := mem_ready ha
      exact h.inside entry hentry
  · intro a ha x hx hrefers
    rcases List.mem_append.mp ha with ha | ha
    · exact h.released a ha x hx hrefers
    · -- A declaration that waits for nothing has no dependency that has not completed.
      obtain ⟨entry, hentry, hempty, rfl⟩ := mem_ready ha
      by_contra hopen
      have hmem := (h.needed entry hentry x).mpr ⟨hrefers, hx, hopen⟩
      rw [hempty] at hmem
      exact List.not_mem_nil hmem
  · show (d.inFlight ++ _ ++ d.completed).Perm (d.submitted ++ _)
    rw [List.append_assoc]
    refine (List.perm_append_comm.append_left _).trans ?_
    rw [← List.append_assoc]
    exact h.begun.append_right _

theorem inFlight_nodup (h : Linked engine addresses d) : d.inFlight.Nodup :=
  (List.nodup_append.mp (h.begun.nodup_iff.mpr (List.nodup_append.mp h.once).2.1)).1

/-- Some of what is in flight completes. -/
theorem collect (h : Linked engine addresses d) (hdistinct : done.Nodup)
    (hbegun : ∀ a ∈ done, a ∈ d.inFlight) (s : State) :
    Linked engine addresses ((d.collect done s).discard done) := by
  refine ⟨?_, ?_, ?_, h.submitted, ?_, ?_⟩
  · intro entry hentry
    obtain ⟨earlier, hearlier, rfl⟩ := List.mem_map.mp hentry
    exact h.inside earlier hearlier
  · intro entry hentry x
    obtain ⟨earlier, hearlier, rfl⟩ := List.mem_map.mp hentry
    show x ∈ Graph.besides done earlier.2 ↔ _ ∧ _ ∧ x ∉ d.completed ++ done
    have hneeded := h.needed earlier hearlier x
    simp only [Graph.besides, List.mem_filter, List.mem_append, hneeded]
    grind
  · rw [keys_discard]
    exact h.once
  · intro a ha x hx hrefers
    exact List.mem_append_left done (h.released a ha x hx hrefers)
  · show (Graph.besides done d.inFlight ++ (d.completed ++ done)).Perm d.submitted
    have hdone : (Graph.among done d.inFlight).Perm done := by
      refine (List.perm_ext_iff_of_nodup (h.inFlight_nodup.filter _) hdistinct).mpr fun a => ?_
      simp only [List.mem_filter, List.contains_iff_mem]
      exact ⟨And.right, fun ha => ⟨hbegun a ha, ha⟩⟩
    have hsplit : (Graph.besides done d.inFlight ++ Graph.among done d.inFlight).Perm
        d.inFlight :=
      List.perm_append_comm.trans (List.filter_append_perm done.contains d.inFlight)
    refine List.Perm.trans ?_ h.begun
    refine List.Perm.trans ?_ (hsplit.append_right d.completed)
    rw [List.append_assoc]
    exact (List.perm_append_comm.trans (hdone.symm.append_right _)).append_left _

/-- What waits is given up. -/
theorem abandon (h : Linked engine addresses d) :
    Linked engine addresses { d with waiting := [] } :=
  ⟨nofun, nofun, (List.nodup_append.mp h.once).2.1, h.submitted, h.released, h.begun⟩

theorem advance (h : Linked engine addresses d) (hdistinct : done.Nodup)
    (hbegun : ∀ a ∈ done, a ∈ d.inFlight) (s : State) :
    Linked engine addresses (d.advance engine done s) := by
  have hcollected := h.collect hdistinct hbegun s
  unfold Drive.advance
  dsimp only
  split
  · exact hcollected.abandon
  · exact hcollected.submit

theorem keys_waitAll (engine : Engine) (s : State) (addresses : List String) :
    Table.keys (waitAll engine s addresses).waiting = addresses := by
  simp [waitAll, Table.keys, Function.comp_def]

theorem waitAll (engine : Engine) (s : State) (hdistinct : addresses.Nodup) :
    Linked engine addresses (waitAll engine s addresses) := by
  refine ⟨?_, ?_, ?_, nofun, nofun, .refl _⟩
  · intro entry hentry
    obtain ⟨a, ha, rfl⟩ := List.mem_map.mp hentry
    exact ha
  · intro entry hentry x
    obtain ⟨a, _, rfl⟩ := List.mem_map.mp hentry
    show x ∈ Graph.among addresses (engine.graph.dependencies a) ↔ _
    simp [Graph.among, Graph.Refers, Drive.waitAll]
  · rw [keys_waitAll]
    exact (List.append_nil addresses).symm ▸ hdistinct

theorem start (engine : Engine) (s : State) (hdistinct : addresses.Nodup) :
    Linked engine addresses (start engine s addresses) :=
  (waitAll engine s hdistinct).submit

end Linked

end Drive

/-! ## The loop of the engine -/

section Loop

variable {engine : Engine} {addresses placed waiting ready : List String} {d : Drive}
  {errors : Nat} {s s' : State}

/-- What is attempted does not stop a pass. -/
theorem runFrom_attempts (s : State) (ready : List String) :
    (runFrom s (ready.forM engine.attempt)).1 = .ok () := by
  induction ready generalizing s with
  | nil => rfl
  | cons address ready ih =>
    show (runFrom s (engine.attempt address >>= fun _ => ready.forM engine.attempt)).1 = .ok ()
    unfold attempt
    rw [runFrom_bind, runFrom_bind, runFrom_outcomeOf]
    exact ih _

/-- The loop is stopped by a fault, or else goes on with what is left. -/
theorem driveFrom_cons {address : String} {r : Except Stop Unit}
    (hrun : runFrom s (engine.driveFrom errors placed waiting (address :: ready)) = (r, s')) :
    ∃ result t, runFrom s (engine.resolveNode (.ofAddress address)) = (result, t)
      ∧ ((∃ fault, result = .error (.fault fault) ∧ r = .error (.fault fault))
        ∨ (∀ fault, result ≠ .error (.fault fault))
          ∧ let own := t.ownFailures address
            runFrom (t.report own)
              (if engine.isEnough (errors + own.length) then
                engine.driveFrom (errors + own.length) placed [] ready
              else
                engine.driveFrom (errors + own.length) (address :: placed)
                  (engine.graph.held (address :: placed) waiting)
                  (ready ++ engine.graph.released (address :: placed) waiting)) = (r, s')) := by
  rw [driveFrom, runFrom_bind, runFrom_outcomeOf] at hrun
  dsimp only at hrun
  generalize runFrom s (engine.resolveNode (.ofAddress address)) = first at hrun ⊢
  obtain ⟨result, t⟩ := first
  refine ⟨result, t, rfl, ?_⟩
  rcases result with (f | fault) | v
  · dsimp only at hrun
    rw [runFrom_get_bind, runFrom_modify_bind] at hrun
    refine .inr ⟨by simp, ?_⟩
    exact hrun
  · dsimp only at hrun
    rw [runFrom_bind] at hrun
    have hattempts : (runFrom t (ready.forM engine.attempt)).1 = .ok () := runFrom_attempts t ready
    generalize runFrom t (ready.forM engine.attempt) = rest at hrun hattempts
    obtain ⟨_, _⟩ := rest
    cases hattempts
    cases hrun
    exact .inl ⟨fault, rfl, rfl⟩
  · dsimp only at hrun
    rw [runFrom_get_bind, runFrom_modify_bind] at hrun
    refine .inr ⟨by simp, ?_⟩
    exact hrun

/-- Placed are, among what is waited for, the declarations that are not driven or have completed. -/
def Places (engine : Engine) (addresses : List String) (d : Drive) (placed : List String) : Prop :=
  ∀ entry ∈ d.waiting, ∀ x, engine.graph.Refers entry.1 x →
    (x ∈ placed ↔ x ∉ addresses ∨ x ∈ d.completed)

/-- What is submitted is what becomes ready, and what waits on is held. -/
theorem Drive.Linked.submit_eq (h : Linked engine addresses d)
    (hplaces : Places engine addresses d placed) :
    Table.keys d.submit.waiting = engine.graph.held placed (Table.keys d.waiting)
      ∧ d.submit.inFlight = d.inFlight ++ engine.graph.released placed (Table.keys d.waiting) := by
  -- A declaration waits for nothing if all of its dependencies have been placed.
  have hempty : ∀ entry ∈ d.waiting,
      entry.2.isEmpty = (engine.graph.dependencies entry.1).all placed.contains := by
    intro entry hentry
    rw [Bool.eq_iff_iff, List.isEmpty_iff, List.eq_nil_iff_forall_not_mem, List.all_eq_true]
    refine forall_congr' fun x => ?_
    rw [h.needed entry hentry x, List.contains_iff_mem]
    show ¬ (engine.graph.Refers entry.1 x ∧ _) ↔ (engine.graph.Refers entry.1 x → x ∈ placed)
    have hplaced := hplaces entry hentry x
    grind
  constructor
  · unfold Graph.held Table.keys
    rw [List.filter_map]
    refine congrArg _ (List.filter_congr fun entry hentry => ?_)
    rw [hempty entry hentry]
    rfl
  · unfold Graph.released Table.keys
    rw [List.filter_map]
    refine congrArg (fun l => d.inFlight ++ List.map Prod.fst l)
      (List.filter_congr fun entry hentry => ?_)
    rw [hempty entry hentry]
    rfl

theorem Drive.length_submit (d : Drive) :
    d.submit.waiting.length + d.submit.inFlight.length
      = d.waiting.length + d.inFlight.length := by
  have hsplit := (List.filter_append_perm (fun entry : String × List String => entry.2.isEmpty)
    d.waiting).length_eq
  simp only [Drive.submit, Table.keys, List.length_append, List.length_map] at hsplit ⊢
  omega

/-- What has completed is placed. -/
theorem Places.collect (hplaces : Places engine addresses d placed) (address : String)
    (s : State) :
    Places engine addresses ((d.collect [address] s).discard [address]) (address :: placed) := by
  intro entry hentry x hrefers
  obtain ⟨earlier, hearlier, rfl⟩ := List.mem_map.mp hentry
  have hplaced := hplaces earlier hearlier x hrefers
  show _ ↔ _ ∨ x ∈ d.completed ++ [address]
  rw [List.mem_cons, hplaced, List.mem_append, List.mem_singleton]
  grind

/-- The first declaration in flight completes alone. -/
theorem Drive.inFlight_collect_first {address : String} (hready : d.inFlight = address :: ready)
    (hdistinct : d.inFlight.Nodup) (s : State) : (d.collect [address] s).inFlight = ready := by
  rw [hready] at hdistinct
  show Graph.besides [address] d.inFlight = ready
  unfold Graph.besides
  rw [hready, List.filter_cons_of_neg (by simp), List.filter_eq_self]
  intro a ha
  have hne : a ≠ address := fun hsame => (List.nodup_cons.mp hdistinct).1 (hsame ▸ ha)
  simpa using hne

/-- The loop of the engine completes one declaration after another. -/
theorem driveFrom_executes (h : Drive.Linked engine addresses d)
    (hplaces : Places engine addresses d placed)
    (hrun : runFrom d.state (engine.driveFrom d.errors placed (Table.keys d.waiting) d.inFlight)
      = (.ok (), s')) :
    ∃ d', Drive.Executes engine d d' ∧ d'.inFlight = [] ∧ d'.state = s' := by
  induction hsize : d.waiting.length + d.inFlight.length using Nat.strongRecOn
    generalizing d placed with
  | ind size ih =>
    subst hsize
    cases hready : d.inFlight with
    | nil =>
      rw [hready, driveFrom] at hrun
      cases hrun
      exact ⟨d, .refl, hready, rfl⟩
    | cons address ready =>
      rw [hready] at hrun
      obtain ⟨r, t, hresolved, ⟨_, _, hstopped⟩ | ⟨hregular, hrest⟩⟩ := driveFrom_cons hrun
      · cases hstopped
      have hbegun : ∀ a ∈ [address], a ∈ d.inFlight := by
        simp [hready]
      have hstep : Drive.Step engine d (d.advance engine [address] t) :=
        .complete (by simp) (by simp) hbegun (.cons hresolved hregular .nil)
      have hcollected := h.collect (by simp) hbegun t
      have hlinked := h.advance (by simp) hbegun t
      unfold Drive.advance at hstep hlinked
      -- What is left is known, so that the drive before anything is submitted needs no name.
      have hleft : ((d.collect [address] t).discard [address]).inFlight = ready :=
        Drive.inFlight_collect_first hready h.inFlight_nodup t
      have herrors : ((d.collect [address] t).discard [address]).errors
          = d.errors + (t.ownFailures address).length := by
        simp [Drive.discard, Drive.collect]
      have hstate : ((d.collect [address] t).discard [address]).state
          = t.report (t.ownFailures address) := by
        simp [Drive.discard, Drive.collect]
      have hkeys := Drive.keys_discard d [address] t
      have hplaces' := hplaces.collect address t
      have hlength := congrArg List.length hkeys
      rw [Table.keys, Table.keys, List.length_map, List.length_map] at hlength
      generalize (d.collect [address] t).discard [address] = c at *
      dsimp only at hstep hlinked hrest
      rw [← herrors, ← hstate, ← hleft, ← hkeys] at hrest
      by_cases henough : engine.isEnough c.errors = true
      · rw [if_pos henough] at hrest hstep hlinked
        have hnothing : Places engine addresses { c with waiting := [] } placed :=
          fun _ hentry => absurd hentry List.not_mem_nil
        obtain ⟨d', hexecutes, hdone⟩ := ih _ (by simp [hready, hleft]; omega) hlinked
          hnothing hrest rfl
        exact ⟨d', .head hstep hexecutes, hdone⟩
      · rw [if_neg henough] at hrest hstep hlinked
        obtain ⟨hwaiting, hflight⟩ := hcollected.submit_eq hplaces'
        rw [← hwaiting, ← hflight] at hrest
        have hsize := c.length_submit
        rw [hlength, hleft] at hsize
        obtain ⟨d', hexecutes, hdone⟩ := ih _ (by simp only [hsize, hready, List.length_cons]; omega)
          hlinked (fun entry hentry => hplaces' entry (List.mem_filter.mp hentry).1) hrest rfl
        exact ⟨d', .head hstep hexecutes, hdone⟩

/-- A pass of the engine is one of those that may complete. -/
theorem drive_executes (hgraph : engine.graph.Acyclic) (hdistinct : addresses.Nodup)
    (hrun : runFrom s (engine.drive addresses) = (.ok (), s')) :
    ∃ d, Drive.Executes engine (Drive.start engine s addresses) d ∧ d.inFlight = []
      ∧ d.state = s' := by
  have hlinked := Drive.Linked.waitAll engine s hdistinct
  have hplaces : Places engine addresses (Drive.waitAll engine s addresses)
      (Graph.besides addresses engine.graph.addresses) := by
    intro entry _ x hrefers
    have hdeclared := hgraph.mem_addresses hrefers
    simp [Graph.besides, Drive.waitAll, hdeclared]
  obtain ⟨hwaiting, hflight⟩ := hlinked.submit_eq hplaces
  rw [Drive.Linked.keys_waitAll] at hwaiting hflight
  refine driveFrom_executes hlinked.submit
    (fun entry hentry => hplaces entry (List.mem_filter.mp hentry).1) ?_
  rw [Drive.start, hwaiting, hflight]
  exact hrun

end Loop

end Engine

end Groundplan
