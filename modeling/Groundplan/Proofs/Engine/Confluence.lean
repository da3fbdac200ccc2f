import Groundplan.Proofs.Engine.Driving

/-!
# The Order of Completions Does Not Matter

What is settled in the end does not depend on the order in which declarations complete.  Every node
that is settled has its verdict, and settled are exactly the nodes that had been settled before and
those that the driven declarations need.  As long as not too many failures have been collected,
every declaration that waits does so for one that has not completed; and as there are no cycles,
something is in flight until all have completed.

## Main Definitions

- `Engine.Touched`: the nodes that are settled in the end
- `Engine.Drive.Valid`: what every step preserves
- `Engine.Drives`: what runs drive, and what is driven after attributes have been supplied

## Main Statements

- `Engine.Drive.Valid.step`, `Engine.Drive.Valid.executes`: the invariant
- `Engine.Drive.Valid.completed_of_idle`: a pass that has not been stopped loses no declaration
- `Engine.Drive.Valid.alike`: what is settled in the end
- `Engine.drives_confluent`
-/

namespace Groundplan

namespace Engine

open Relation

variable {engine : Engine} {overlay : Overlay} {Admitted : NodeId → Prop} {s s' : State}
  {addresses done : List String}

/-! ## What is settled in the end -/

/-- A node has been settled before a pass, or a declaration that is driven needs it. -/
def Touched (engine : Engine) (overlay : Overlay) (s : State) (addresses : List String)
    (m : NodeId) : Prop :=
  s.IsSettled m ∨ ∃ a ∈ addresses, ReflTransGen (engine.Needs overlay) (.ofAddress a) m

theorem touched_closed (hcomplete : Complete engine overlay s) :
    Closed engine overlay (Touched engine overlay s addresses) := by
  intro node m htouched hneeds
  rcases htouched with hsettled | ⟨a, ha, hpath⟩
  · exact .inl ((hcomplete node hsettled).needed m hneeds)
  · exact .inr ⟨a, ha, hpath.tail hneeds⟩

/-- Declarations that are resolved without a fault have been settled. -/
theorem Finishes.orderly (hgraph : engine.graph.Acyclic) (hclosed : Closed engine overlay Admitted)
    (hfinishes : engine.Finishes s done s') (h : Orderly engine overlay Admitted s)
    (hadmitted : ∀ a ∈ done, Admitted (.ofAddress a)) :
    Orderly engine overlay Admitted s' ∧ Advances engine overlay Admitted s s'
      ∧ ∀ a ∈ done, s'.IsSettled (.ofAddress a) := by
  induction hfinishes with
  | nil => exact ⟨h, .refl _, nofun⟩
  | @cons _ _ _ address _ r hresolved hregular _ ih =>
    obtain ⟨_, horderly, hadvances, hsettled⟩ :=
      h.resolveNode hgraph hclosed (hadmitted address List.mem_cons_self) hresolved
    obtain ⟨horderly', hadvances', hsettled'⟩ :=
      ih horderly fun a ha => hadmitted a (List.mem_cons_of_mem _ ha)
    refine ⟨horderly', hadvances.trans hadvances', fun a ha => ?_⟩
    rcases List.mem_cons.mp ha with rfl | ha
    · exact hadvances'.isSome (hsettled fun defect => hregular (.defect defect))
    · exact hsettled' a ha

/-- Declarations whose verdicts are no defects can be resolved in any order. -/
theorem finishes_of_regular (hgraph : engine.graph.Acyclic)
    (hclosed : Closed engine overlay Admitted) (h : Orderly engine overlay Admitted s)
    (hadmitted : ∀ a ∈ done, Admitted (.ofAddress a))
    (hregular : ∀ a ∈ done, IsRegular (engine.verdict overlay (.ofAddress a))) :
    ∃ s', engine.Finishes s done s' := by
  induction done generalizing s with
  | nil => exact ⟨s, .nil⟩
  | cons address rest ih =>
    obtain ⟨r, s', hrun⟩ :
        ∃ r s', runFrom s (engine.resolveNode (.ofAddress address)) = (r, s') := ⟨_, _, rfl⟩
    obtain ⟨hverdict, horderly, _⟩ := h.resolveNode hgraph hclosed
      (hadmitted address List.mem_cons_self) hrun
    obtain ⟨s'', hrest⟩ := ih horderly (fun a ha => hadmitted a (List.mem_cons_of_mem _ ha))
      fun a ha => hregular a (List.mem_cons_of_mem _ ha)
    refine ⟨s'', .cons hrun ?_ hrest⟩
    rw [hverdict]
    rintro (e | d) hfault
    · exact verdict_ne_error hgraph overlay _ e hfault
    · exact hregular address List.mem_cons_self d hfault

/-! ## The invariant -/

namespace Drive

variable {s₀ : State} {d d' : Drive}

/-- What holds of a pass however far it has come. -/
structure Valid (engine : Engine) (overlay : Overlay) (s₀ : State) (addresses : List String)
    (d : Drive) : Prop where
  linked : Linked engine addresses d
  awake : ∀ entry ∈ d.waiting, entry.2 ≠ []
  covered : engine.isEnough d.errors = false →
    ∀ a ∈ addresses, a ∈ Table.keys d.waiting ∨ a ∈ d.submitted
  orderly : Orderly engine overlay (Touched engine overlay s₀ addresses) d.state
  advances : Advances engine overlay (Touched engine overlay s₀ addresses) s₀ d.state
  settled : ∀ a ∈ d.completed, d.state.IsSettled (.ofAddress a)

/-- What waits for something goes on waiting. -/
theorem ne_nil_of_mem_submit {entry : String × List String} (hentry : entry ∈ d.submit.waiting) :
    entry.2 ≠ [] := by
  have hwaits := (List.mem_filter.mp hentry).2
  simpa using hwaits

/-- What is collected stays collected. -/
theorem isEnough_mono {errors more : Nat} (h : engine.isEnough errors = true) :
    engine.isEnough (errors + more) = true := by
  simp only [isEnough, Bool.and_eq_true, decide_eq_true_eq] at h ⊢
  omega

theorem Valid.start (hdistinct : addresses.Nodup) (h : Orderly engine overlay Admitted s₀) :
    Valid engine overlay s₀ addresses (start engine s₀ addresses) := by
  refine ⟨Linked.start engine s₀ hdistinct, fun entry hentry => ne_nil_of_mem_submit hentry,
    fun _ a ha => ?_, h.mono fun node => .inl, .refl s₀, nofun⟩
  rw [← List.mem_append]
  refine (Linked.keys_submit_perm _).mem_iff.mpr (List.mem_append_left _ ?_)
  rw [Linked.keys_waitAll]
  exact ha

/-- What is in flight is driven. -/
theorem Valid.touched_of_inFlight (h : Valid engine overlay s₀ addresses d) {a : String}
    (ha : a ∈ d.inFlight) : Touched engine overlay s₀ addresses (.ofAddress a) := by
  have hsubmitted := h.linked.begun.mem_iff.mp (List.mem_append_left d.completed ha)
  exact .inr ⟨a, h.linked.submitted a hsubmitted, .refl⟩

/-- Every step preserves what holds of a pass. -/
theorem Valid.step (hgraph : engine.graph.Acyclic) (hcomplete : Complete engine overlay s₀)
    (h : Valid engine overlay s₀ addresses d) (hstep : Step engine d d') :
    Valid engine overlay s₀ addresses d' := by
  cases hstep with
  | @proceed a s hbegun hfinishes =>
    obtain ⟨horderly, hadvances, _⟩ := hfinishes.orderly hgraph (touched_closed hcomplete)
      h.orderly fun b hb => h.touched_of_inFlight (List.mem_singleton.mp hb ▸ hbegun)
    have hlinked : Linked engine addresses { d with state := s } :=
      ⟨h.linked.inside, h.linked.needed, h.linked.once, h.linked.submitted, h.linked.released,
        h.linked.begun⟩
    exact ⟨hlinked, h.awake, h.covered, horderly, h.advances.trans hadvances,
      fun b hb => hadvances.isSome (h.settled b hb)⟩
  | @complete done s hnonempty hdistinct hbegun hfinishes =>
    obtain ⟨horderly, hadvances, hsettled⟩ := hfinishes.orderly hgraph (touched_closed hcomplete)
      h.orderly fun b hb => h.touched_of_inFlight (hbegun b hb)
    have hadvances' : Advances engine overlay (Touched engine overlay s₀ addresses) s₀
        (s.report (done.flatMap s.ownFailures)) :=
      (h.advances.trans hadvances).trans (.of_eq ⟨fun _ _ hm => hm, fun _ _ he => he⟩ rfl)
    have hcompleted : ∀ b ∈ d.completed ++ done, s.IsSettled (.ofAddress b) := by
      intro b hb
      rcases List.mem_append.mp hb with hb | hb
      · exact hadvances.isSome (h.settled b hb)
      · exact hsettled b hb
    have hlinked := h.linked.advance hdistinct hbegun s
    unfold advance at hlinked ⊢
    dsimp only at hlinked ⊢
    split at hlinked
    · rename_i henough
      rw [if_pos henough]
      refine ⟨hlinked, nofun, fun hgoes => ?_, horderly.report _, hadvances', hcompleted⟩
      exact absurd henough (by simpa using hgoes)
    · rename_i hgoes
      rw [if_neg hgoes]
      refine ⟨hlinked, fun entry hentry => ne_nil_of_mem_submit hentry, fun _ a ha => ?_,
        horderly.report _, hadvances', hcompleted⟩
      -- It has been enough at no time before.
      have hearlier : engine.isEnough d.errors = false := by
        by_contra henough
        exact hgoes (isEnough_mono (by simpa using henough))
      rw [← List.mem_append, (Linked.keys_submit_perm _).mem_iff, List.mem_append]
      rw [keys_discard]
      exact h.covered hearlier a ha

theorem Valid.executes (hgraph : engine.graph.Acyclic) (hcomplete : Complete engine overlay s₀)
    (h : Valid engine overlay s₀ addresses d) (hexecutes : Executes engine d d') :
    Valid engine overlay s₀ addresses d' := by
  induction hexecutes with
  | refl => exact h
  | tail _ hstep ih => exact ih.step hgraph hcomplete hstep

/-- Any declarations in flight may complete next, if none of their verdicts is a defect. -/
theorem Valid.exists_step (hgraph : engine.graph.Acyclic) (hcomplete : Complete engine overlay s₀)
    (h : Valid engine overlay s₀ addresses d) (hnonempty : done ≠ []) (hdistinct : done.Nodup)
    (hbegun : ∀ a ∈ done, a ∈ d.inFlight)
    (hregular : ∀ a ∈ done, IsRegular (engine.verdict overlay (.ofAddress a))) :
    ∃ d', Step engine d d' ∧ d'.completed = d.completed ++ done := by
  obtain ⟨s, hfinishes⟩ := finishes_of_regular hgraph (touched_closed hcomplete) h.orderly
    (fun a ha => h.touched_of_inFlight (hbegun a ha)) hregular
  refine ⟨_, .complete hnonempty hdistinct hbegun hfinishes, ?_⟩
  unfold advance
  dsimp only
  split <;> rfl

/-! ## Passes that have come to their end -/

/-- What has been submitted is in flight until it completes. -/
theorem Linked.completed_of_idle (h : Linked engine addresses d) (hidle : d.inFlight = []) {a : String}
    (ha : a ∈ d.submitted) : a ∈ d.completed := by
  have hbegun := h.begun.mem_iff.mpr ha
  rwa [hidle] at hbegun

/-- A pass that has not been stopped loses no declaration. -/
theorem Valid.completed_of_idle (hgraph : engine.graph.Acyclic)
    (h : Valid engine overlay s₀ addresses d) (hidle : d.inFlight = [])
    (hgoes : engine.isEnough d.errors = false) : ∀ a ∈ addresses, a ∈ d.completed := by
  have hnothing : Table.keys d.waiting = [] := by
    by_contra hwaits
    obtain ⟨a, ha, hfree⟩ := hgraph.exists_free hwaits
    obtain ⟨entry, hentry, rfl⟩ := List.mem_map.mp ha
    obtain ⟨x, hx⟩ := List.exists_mem_of_ne_nil _ (h.awake entry hentry)
    obtain ⟨hrefers, hdriven, hopen⟩ := (h.linked.needed entry hentry x).mp hx
    rcases h.covered hgoes x hdriven with hwaiting | hsubmitted
    · exact hfree x hrefers hwaiting
    · exact hopen (h.linked.completed_of_idle hidle hsubmitted)
  intro a ha
  rcases h.covered hgoes a ha with hwaiting | hsubmitted
  · rw [hnothing] at hwaiting
    exact absurd hwaiting List.not_mem_nil
  · exact h.linked.completed_of_idle hidle hsubmitted

/-- Once enough failures have been collected, nothing more is submitted. -/
theorem submitted_of_isEnough (henough : engine.isEnough d.errors = true)
    (hexecutes : Executes engine d d') :
    d'.submitted = d.submitted ∧ engine.isEnough d'.errors = true := by
  induction hexecutes with
  | refl => exact ⟨rfl, henough⟩
  | tail _ hstep ih =>
    cases hstep with
    | proceed _ _ => exact ih
    | @complete done s _ _ _ _ =>
      have hmore : engine.isEnough ((Drive.collect _ done s).discard done).errors = true :=
        isEnough_mono ih.2
      unfold advance
      dsimp only
      rw [if_pos hmore]
      exact ⟨ih.1, hmore⟩

/-- Settled are the nodes that had been settled before and those that are needed. -/
theorem Valid.isSettled_iff (h : Valid engine overlay s₀ addresses d)
    (hall : ∀ a ∈ addresses, a ∈ d.completed) {m : NodeId} :
    d.state.IsSettled m ↔ Touched engine overlay s₀ addresses m := by
  constructor
  · intro hsettled
    obtain ⟨outcome, houtcome⟩ := Option.isSome_iff_exists.mp hsettled
    exact h.orderly.sound.admitted m outcome houtcome
  · rintro (hsettled | ⟨a, ha, hpath⟩)
    · exact h.advances.isSome hsettled
    · -- By induction on the path from the declaration to what it needs.
      induction hpath with
      | refl => exact h.settled a (hall a ha)
      | tail _ hneeds ih => exact (h.orderly.complete _ ih).needed _ hneeds

/-- Noted as deferred is what had been noted before, and what is settled and deferred. -/
theorem Valid.noted_iff (h : Valid engine overlay s₀ addresses d)
    (hall : ∀ a ∈ addresses, a ∈ d.completed) {address : String} :
    address ∈ d.state.deferred ↔ address ∈ s₀.deferred
      ∨ Touched engine overlay s₀ addresses (.ofAddress address)
        ∧ engine.Defers overlay address := by
  constructor
  · exact h.advances.noted address
  · rintro (hearlier | ⟨htouched, n, r, e, hexpands, hdeferred⟩)
    · exact h.advances.kept address hearlier
    · have hsettled := (h.isSettled_iff hall).mpr htouched
      exact (h.orderly.complete _ hsettled).noted n r e hexpands hdeferred

/-- What becomes of every node does not depend on the order. -/
theorem Valid.alike (h : Valid engine overlay s₀ addresses d)
    (h' : Valid engine overlay s₀ addresses d') (hall : ∀ a ∈ addresses, a ∈ d.completed)
    (hall' : ∀ a ∈ addresses, a ∈ d'.completed) : Alike d.state d'.state := by
  have hsame : ∀ m, d.state.IsSettled m ↔ d'.state.IsSettled m := fun m =>
    (h.isSettled_iff hall).trans (h'.isSettled_iff hall').symm
  refine ⟨fun node => ?_, fun address => (h.noted_iff hall).trans (h'.noted_iff hall').symm⟩
  cases hnode : Table.get? d.state.settled node with
  | none =>
    have hunsettled : ¬ d'.state.IsSettled node := by
      rw [← hsame, State.IsSettled, hnode]
      simp
    exact (Option.not_isSome_iff_eq_none.mp hunsettled).symm
  | some outcome =>
    obtain ⟨outcome', hnode'⟩ := Option.isSome_iff_exists.mp
      ((hsame node).mp (State.isSettled_of_get? hnode))
    rw [hnode', Settled.result_injective ((h.orderly.sound.settled _ _ hnode).trans
      (h'.orderly.sound.settled _ _ hnode').symm)]

end Drive

/-! ## Main statement -/

/-- The declarations that runs drive, and those that are driven after attributes have been supplied,
each with the state from which they are. -/
inductive Drives (engine : Engine) : State → List String → Prop where
  | run (calls : List Call) {order : List String}
      (sorted : engine.graph.topologicalOrder = .ok order) :
      Drives engine (engine.afterAll calls) order
  | apply (calls : List Call) {node : NodeId} {value : Value} {supplied : Table String Value}
      {order : List String} (applicable : engine.checkApplicable node = .ok ())
      (valued : (engine.afterAll calls).value? node = some value)
      (sorted : engine.graph.topologicalOrder = .ok order) :
      Drives engine (engine.merged (engine.afterAll calls) node value supplied)
        (Graph.among (engine.graph.dependentsClosure [node.address]) order)

/-- What is driven is declared, and driven once, from an orderly state. -/
theorem Drives.orderly (hgraph : engine.graph.Acyclic) (h : engine.Drives s addresses) :
    addresses.Nodup ∧ (∀ a ∈ addresses, a ∈ engine.graph.addresses)
      ∧ ∃ overlay, Orderly engine overlay engine.Declared s := by
  cases h with
  | run calls hsorted =>
    have hperm := hgraph.topologicalOrder_perm hsorted
    exact ⟨hperm.nodup_iff.mpr hgraph.distinct, fun a ha => hperm.mem_iff.mp ha, _,
      (afterAll_kept hgraph calls).orderly⟩
  | apply calls happlicable hvalued hsorted =>
    have hperm := hgraph.topologicalOrder_perm hsorted
    have hkept := afterAll_kept hgraph calls
    exact ⟨(hperm.nodup_iff.mpr hgraph.distinct).filter _,
      fun a ha => hperm.mem_iff.mp (List.mem_filter.mp ha).1, _,
      merged_orderly hgraph hkept.orderly hkept.distinct happlicable hvalued fun _ hm _ => hm⟩

/-- How a pass over some declarations is ordered, however far it has come. -/
structure Drive.Ordered (engine : Engine) (addresses : List String) (d : Drive) : Prop where
  /-- Every declaration is submitted once at most. -/
  once : d.submitted.Nodup
  /-- It is submitted once the dependencies that are driven have completed. -/
  after : ∀ a ∈ d.submitted, ∀ x ∈ addresses, engine.graph.Refers a x → x ∈ d.completed
  /-- The pass ends when all have completed, unless enough failures have been collected. -/
  ends : engine.settings.maxErrors = 0 ∨ d.errors < engine.settings.maxErrors →
    d.inFlight = [] → ∀ a ∈ addresses, a ∈ d.completed
  /-- Then nothing more is submitted. -/
  stops : engine.settings.maxErrors ≠ 0 → engine.settings.maxErrors ≤ d.errors →
    ∀ d', Executes engine d d' → d'.submitted = d.submitted

theorem isEnough_eq_false_iff {errors : Nat} : engine.isEnough errors = false
    ↔ engine.settings.maxErrors = 0 ∨ errors < engine.settings.maxErrors := by
  simp only [isEnough, Bool.and_eq_false_iff, decide_eq_false_iff_not]
  omega

theorem Drive.Valid.ordered (hgraph : engine.graph.Acyclic) {s₀ : State} {d : Drive}
    (h : Drive.Valid engine overlay s₀ addresses d) : d.Ordered engine addresses := by
  refine ⟨(List.nodup_append.mp h.linked.once).2.1, h.linked.released, fun hgoes hidle => ?_,
    fun hlimit henough d' hexecutes => ?_⟩
  · exact h.completed_of_idle hgraph hidle (isEnough_eq_false_iff.mpr hgoes)
  · refine (submitted_of_isEnough ?_ hexecutes).1
    simp [isEnough, hlimit, henough]

/-- **Declarations may complete in any order.**  A run, or what follows when attributes are supplied
after any calls, drives declarations of which any may complete next, alone or with others.  However
they do, each is submitted once at most and behind those of its dependencies that are driven; none
is lost unless enough failures have been collected, and then nothing more is submitted.  Only a
defect keeps declarations in flight from completing.  Without a limit on failures the values, the
outputs, the failures and the deferred templates that are reported in the end are the same for every
order.  The loop of the engine is one of these orders. -/
theorem drives_confluent {library : Library} {settings : Settings}
    {declarations : List Declaration} {inputs : Table String Plain} {engine : Engine}
    (hengine : Engine.ofDeclarations library settings declarations inputs = .ok engine)
    (hcheck : engine.graph.checkAcyclic = .ok ()) {s : State} {addresses : List String}
    (hdrives : engine.Drives s addresses) :
    (∀ d, Drive.Executes engine (Drive.start engine s addresses) d → d.Ordered engine addresses)
      ∧ (∀ d, Drive.Executes engine (Drive.start engine s addresses) d →
          ∀ done, done ≠ [] → done.Nodup → (∀ a ∈ done, a ∈ d.inFlight) →
            (∀ a ∈ done, IsRegular (engine.verdict s.applied (.ofAddress a))) →
            ∃ d', Drive.Step engine d d' ∧ d'.completed = d.completed ++ done)
      ∧ (engine.settings.maxErrors = 0 →
          ∀ d d', Drive.Executes engine (Drive.start engine s addresses) d →
            Drive.Executes engine (Drive.start engine s addresses) d' →
            d.inFlight = [] → d'.inFlight = [] →
            (engine.reportOf d.state).values = (engine.reportOf d'.state).values
              ∧ (engine.reportOf d.state).outputs = (engine.reportOf d'.state).outputs
              ∧ (engine.reportOf d.state).failures = (engine.reportOf d'.state).failures
              ∧ (engine.reportOf d.state).deferred = (engine.reportOf d'.state).deferred)
      ∧ ∀ s', runFrom s (engine.drive addresses) = (.ok (), s') →
          ∃ d, Drive.Executes engine (Drive.start engine s addresses) d ∧ d.inFlight = []
            ∧ d.state = s' := by
  have hgraph := acyclic_of_ofDeclarations hengine hcheck
  obtain ⟨hdistinct, hdeclared, overlay, hs⟩ := hdrives.orderly hgraph
  have hvalid : ∀ d, Drive.Executes engine (Drive.start engine s addresses) d →
      Drive.Valid engine overlay s addresses d :=
    fun d hexecutes => (Drive.Valid.start hdistinct hs).executes hgraph hs.complete hexecutes
  have hadmitted : ∀ m, Touched engine overlay s addresses m → engine.Declared m := by
    rintro m (hsettled | ⟨a, ha, hpath⟩)
    · obtain ⟨outcome, houtcome⟩ := Option.isSome_iff_exists.mp hsettled
      exact hs.sound.admitted m outcome houtcome
    · induction hpath with
      | refl => exact hdeclared a ha
      | tail _ hneeds ih => exact declared_closed hgraph overlay _ _ ih hneeds
  refine ⟨fun d hexecutes => (hvalid d hexecutes).ordered hgraph,
    fun d hexecutes done hnonempty hdone hbegun hregular => ?_,
    fun hunlimited d d' hexecutes hexecutes' hidle hidle' => ?_,
    fun s' hrun => drive_executes hgraph hdistinct hrun⟩
  · rw [hs.sound.applied] at hregular
    exact (hvalid d hexecutes).exists_step hgraph hs.complete hnonempty hdone hbegun hregular
  have hv := hvalid d hexecutes
  have hv' := hvalid d' hexecutes'
  have halike : Alike d.state d'.state :=
    hv.alike hv' ((hv.ordered hgraph).ends (.inl hunlimited) hidle)
      ((hv'.ordered hgraph).ends (.inl hunlimited) hidle')
  exact halike.report hadmitted hv.orderly hv'.orderly hgraph

/-- Two values of which a third one is made. -/
theorem drives_confluent_sum :
    let first : Declaration := .localValue ⟨"first", .literal none (.ofNat 1), none⟩
    let second : Declaration := .localValue ⟨"second", .literal none (.ofNat 2), none⟩
    let sum : Declaration := .localValue ⟨"sum",
      .binary none .add (.ref none ⟨.localName, "first"⟩) (.ref none ⟨.localName, "second"⟩),
      none⟩
    let order := ["local.first", "local.second", "local.sum"]
    ∃ engine, Engine.ofDeclarations Library.standard Settings.standard [sum, first, second] []
        = .ok engine
      ∧ engine.graph.checkAcyclic = .ok ()
      ∧ engine.Drives (engine.afterAll []) order
      ∧ ∃ d, Drive.Executes engine (Drive.start engine .initial order) d ∧ d.inFlight = []
          ∧ ∀ a ∈ order, a ∈ d.completed := by
  intro first second sum order
  let engine : Engine := ⟨⟨[⟨sum, ["local.first", "local.second"], []⟩, ⟨first, [], []⟩,
    ⟨second, [], []⟩]⟩, Library.standard, Settings.standard, []⟩
  have hengine : Engine.ofDeclarations Library.standard Settings.standard [sum, first, second] []
      = .ok engine := by
    cbv
  have hcheck : engine.graph.checkAcyclic = .ok () := by
    cbv
  have hsorted : engine.graph.topologicalOrder = .ok order := by
    cbv
  have hdrives : engine.Drives (engine.afterAll []) order := .run [] hsorted
  have hresult : (runFrom .initial (engine.drive order)).1 = .ok () := by
    cbv
  have hconfluent := drives_confluent hengine hcheck hdrives
  refine ⟨engine, hengine, hcheck, hdrives, ?_⟩
  obtain ⟨d, hexecutes, hidle, _⟩ := hconfluent.2.2.2 _ (Prod.ext hresult rfl)
  exact ⟨d, hexecutes, hidle, (hconfluent.1 d hexecutes).ends (.inl rfl) hidle⟩

end Engine

end Groundplan
